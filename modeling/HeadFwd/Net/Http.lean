import HeadFwd.Text.Bytes

/-! # Requests as a handler sees them

A header is a finite map from canonical names to the values sent under the
name. The server has validated the request line and the host by the time a
handler runs; everything else is the client's choice.
-/

namespace HeadFwd.Net

open Text

/-- Header fields by canonical name; a repeated name is looked up at its first entry. -/
abbrev Header := List (Bytes × List Bytes)

/-- The first value sent under a name, empty when there is none. -/
def Header.get (h : Header) (name : Bytes) : Bytes :=
  match List.lookup name h with
  | some (v :: _) => v
  | _ => []

/-- The bytes of a header name. -/
def isTokenByte (b : UInt8) : Bool :=
  chr 'a' ≤ b && b ≤ chr 'z' || chr 'A' ≤ b && b ≤ chr 'Z' || chr '0' ≤ b && b ≤ chr '9' ||
    b ∈ str "!#$%&'*+-.^_`|~"

def upperByte (b : UInt8) : UInt8 := if chr 'a' ≤ b ∧ b ≤ chr 'z' then b - 32 else b

/-- Upper case at the start and after a hyphen, lower case elsewhere. -/
def canonicalBytes : Bool → Bytes → Bytes
  | _, [] => []
  | upper, b :: s =>
    (if upper then upperByte b else lowerByte b) :: canonicalBytes (b = chr '-') s

/-- The name under which a header is kept; a name with other bytes is left alone. -/
def canonicalHeaderKey (name : Bytes) : Bytes :=
  if name.all isTokenByte then canonicalBytes true name else name

/-- All values under a name in any spelling. -/
def Header.values (h : Header) (name : Bytes) : Option (List Bytes) :=
  List.lookup (canonicalHeaderKey name) h

def Header.del (h : Header) (name : Bytes) : Header :=
  h.filter fun f => f.1 ≠ canonicalHeaderKey name

def Header.set (h : Header) (name value : Bytes) : Header :=
  (canonicalHeaderKey name, [value]) :: h.del name

section Lookup

variable {α β : Type} [BEq α] [LawfulBEq α] {l : List (α × β)} {k : α} {v : β}

theorem lookup_eq_some_of_mem (hl : (l.map Prod.fst).Nodup) (h : (k, v) ∈ l) :
    l.lookup k = some v := by
  induction l with
  | nil => cases h
  | cons f l ih =>
    obtain ⟨hf, hl⟩ := List.nodup_cons.mp hl
    rcases List.mem_cons.mp h with rfl | h
    · exact List.lookup_cons_self
    · have hne : k ≠ f.1 := fun he => hf (List.mem_map.mpr ⟨_, h, he⟩)
      rw [List.lookup_cons, beq_false_of_ne hne]
      exact ih hl h

theorem mem_of_lookup (h : l.lookup k = some v) : (k, v) ∈ l := by
  obtain ⟨l₁, l₂, rfl, -⟩ := List.lookup_eq_some_iff.mp h
  simp

end Lookup

theorem Header.lookup_del_of_ne {name k : Bytes} (hk : k ≠ canonicalHeaderKey name) (h : Header) :
    List.lookup k (h.del name) = List.lookup k h := by
  induction h with
  | nil => rfl
  | cons f h ih =>
    rw [Header.del] at ih ⊢
    by_cases hf : f.1 = canonicalHeaderKey name
    · have hb : (k == f.1) = false := by simpa [hf] using hk
      rw [List.filter_cons_of_neg (by simpa using hf), ih, List.lookup_cons, hb]
    · rw [List.filter_cons_of_pos (by simpa using hf), List.lookup_cons, List.lookup_cons, ih]

@[simp] theorem Header.lookup_del_self (h : Header) (name : Bytes) :
    List.lookup (canonicalHeaderKey name) (h.del name) = none := by
  rw [List.lookup_eq_none_iff]
  intro f hf
  have hne : f.1 ≠ canonicalHeaderKey name := by simpa using (List.mem_filter.mp hf).2
  simpa using hne.symm

@[simp] theorem Header.lookup_set_self (h : Header) (name value : Bytes) :
    List.lookup (canonicalHeaderKey name) (h.set name value) = some [value] :=
  List.lookup_cons_self

theorem Header.lookup_set_of_ne {name k : Bytes} (hk : k ≠ canonicalHeaderKey name) (h : Header)
    (value : Bytes) : List.lookup k (h.set name value) = List.lookup k h := by
  have hb : (k == canonicalHeaderKey name) = false := by simpa using hk
  rw [Header.set, List.lookup_cons, hb]
  exact Header.lookup_del_of_ne hk h

/-- The header made of a map by setting its entries, in the order in which the map is gone through. -/
def Header.ofFields (fields : List (Bytes × Bytes)) : Header :=
  fields.foldl (fun h f => Header.set h f.1 f.2) []

/-- What a parser makes of header lines: every name once, in canonical form, made of token bytes. -/
structure Header.Canonical (h : Header) : Prop where
  nodup : (h.map Prod.fst).Nodup
  canonical : ∀ f ∈ h, canonicalHeaderKey f.1 = f.1
  token : ∀ f ∈ h, ∀ b ∈ f.1, isTokenByte b = true

theorem isTokenByte_lt (b : UInt8) : isTokenByte b = true → b < 0x80 :=
  forall_byte (p := fun b => isTokenByte b = true → b < 0x80) (by decide +kernel) b

theorem Header.lookup_foldl_set {fields : List (Bytes × Bytes)} {k : Bytes}
    (hk : k ∉ fields.map fun f => canonicalHeaderKey f.1) (h : Header) :
    List.lookup k (fields.foldl (fun h f => Header.set h f.1 f.2) h) = List.lookup k h := by
  induction fields generalizing h with
  | nil => rfl
  | cons f fields ih =>
    rw [List.map_cons, List.mem_cons, not_or] at hk
    rw [List.foldl_cons, ih hk.2, Header.lookup_set_of_ne hk.1]

/-- Distinct canonical names keep their values, in whatever order they are set. -/
theorem Header.lookup_ofFields {fields : List (Bytes × Bytes)} (hn : (fields.map Prod.fst).Nodup)
    (hc : ∀ f ∈ fields, canonicalHeaderKey f.1 = f.1) {k v : Bytes} (hf : (k, v) ∈ fields) :
    List.lookup k (Header.ofFields fields) = some [v] := by
  obtain ⟨before, after, rfl⟩ := List.append_of_mem hf
  rw [Header.ofFields, List.foldl_append, List.foldl_cons, Header.lookup_foldl_set]
  · have hk : canonicalHeaderKey k = k := hc (k, v) hf
    nth_rewrite 1 [← hk]
    exact Header.lookup_set_self ..
  · have hafter : after.map (fun f => canonicalHeaderKey f.1) = after.map Prod.fst :=
      List.map_congr_left fun f h => hc f (by simp [h])
    rw [hafter]
    rw [List.map_append, List.map_cons] at hn
    exact (List.nodup_cons.mp (List.nodup_append.mp hn).2.1).1

/-- The parts of a request the handlers read. `tls` tells whether the connection itself is
encrypted; `remoteAddr` is the TCP peer. -/
structure Request where
  method : Bytes
  host : Bytes
  remoteAddr : Bytes
  header : Header
  tls : Bool

/-- A reply written by `http.Error`. -/
structure HttpError where
  text : Bytes
  status : ℕ
  deriving DecidableEq, Repr

end HeadFwd.Net
