import HeadFwd.Net.Http
import HeadFwd.Net.Url

/-! # Request heads

How a server of HTTP/1.1 reads the head of a request and finds where its body begins.
A line ends at a line feed, with or without a carriage return before it. A request
line is cut at its first two blanks. A field is cut at its first colon, and blanks
around its value are dropped.
-/

namespace HeadFwd.Net

open Text

structure Head where
  method : Bytes
  target : Bytes
  fields : List (Bytes × Bytes)
  deriving DecidableEq

/-- What stands before and after the first occurrence of a byte. -/
def cut (c : UInt8) (s : Bytes) : Option (Bytes × Bytes) :=
  (indexByte s c).map fun i => (s.take i, s.drop (i + 1))

/-- A line without its end, and what follows it. -/
def readLine (s : Bytes) : Option (Bytes × Bytes) :=
  (cut 0x0A s).map fun (line, rest) =>
    (if line.getLast? = some 0x0D then line.dropLast else line, rest)

def isToken (s : Bytes) : Bool := s ≠ [] && s.all isTokenByte

def parseRequestLine (line : Bytes) : Option (Bytes × Bytes) :=
  match cut (chr ' ') line with
  | none => none
  | some (method, rest) =>
    match cut (chr ' ') rest with
    | none => none
    | some (target, proto) =>
      if isToken method = true ∧ proto = str "HTTP/1.1" then some (method, target) else none

def isBlank (b : UInt8) : Bool := b = chr ' ' || b = 0x09

def trimBlanks (s : Bytes) : Bytes := ((s.dropWhile isBlank).reverse.dropWhile isBlank).reverse

/-- The bytes of a field value: no control byte but the tab. -/
def isFieldByte (b : UInt8) : Bool := !isControl b || b = 0x09

def parseField (line : Bytes) : Option (Bytes × Bytes) :=
  match cut (chr ':') line with
  | none => none
  | some (name, value) =>
    if isToken name = true ∧ value.all isFieldByte = true then some (name, trimBlanks value) else none

/-- The fields up to the first empty line, and what follows it. Every line takes a byte, so that the
length of the text is enough fuel. -/
def readFields : ℕ → Bytes → Option (List (Bytes × Bytes) × Bytes)
  | 0, _ => none
  | fuel + 1, s =>
    match readLine s with
    | none => none
    | some (line, rest) =>
      if line = [] then some ([], rest)
      else do
        let f ← parseField line
        let (fs, body) ← readFields fuel rest
        return (f :: fs, body)

/-- The head at the start of a text, and what follows it. -/
def parseHead (s : Bytes) : Option (Head × Bytes) :=
  match readLine s with
  | none => none
  | some (line, rest) => do
    let (method, target) ← parseRequestLine line
    let (fields, body) ← readFields rest.length rest
    return ({ method, target, fields }, body)

/-- The length that a `Content-Length` stands for. -/
def parseLength (v : Bytes) : Option ℕ := if v ≠ [] ∧ v.all isDigit = true then some (decimal v) else none

namespace Head

/-- The values of all fields under a name in any spelling. -/
def values (h : Head) (name : Bytes) : List Bytes :=
  (h.fields.filter fun f => canonicalHeaderKey f.1 = canonicalHeaderKey name).map Prod.snd

/-- The length of the body that is announced; `none` when there is more than one or it is none. -/
def contentLength (h : Head) : Option ℕ :=
  match h.values (str "Content-Length") with
  | [] => some 0
  | [v] => parseLength v
  | _ => none

end Head

/-! ## Writing a head -/

def fieldLine (f : Bytes × Bytes) : Bytes := f.1 ++ str ": " ++ f.2 ++ str "\r\n"

def Head.render (h : Head) : Bytes :=
  h.method ++ str " " ++ h.target ++ str " HTTP/1.1\r\n" ++ h.fields.flatMap fieldLine ++ str "\r\n"

/-- A field that reads as it is written. -/
structure PlainField (f : Bytes × Bytes) : Prop where
  name : isToken f.1 = true
  bytes : ∀ b ∈ f.2, isFieldByte b = true
  trimmed : trimBlanks f.2 = f.2

theorem cut_append {a : Bytes} {c : UInt8} (h : c ∉ a) (s : Bytes) :
    cut c (a ++ c :: s) = some (a, s) := by
  rw [cut, indexByte_append h, Option.map_some, List.take_left]
  simp

theorem cut_eq_some {a s t : Bytes} {c : UInt8} (h : cut c s = some (a, t)) :
    s = a ++ c :: t ∧ c ∉ a := by
  obtain ⟨i, hi, he⟩ := Option.map_eq_some_iff.mp h
  cases he
  obtain ⟨hlen, hc, hbefore⟩ := List.findIdx?_eq_some_iff_getElem.mp hi
  have hsplit : s = s.take i ++ s[i] :: s.drop (i + 1) := by
    rw [← List.drop_eq_getElem_cons hlen, List.take_append_drop]
  rw [of_decide_eq_true hc] at hsplit
  refine ⟨hsplit, ?_⟩
  intro hm
  obtain ⟨j, hj, he⟩ := List.getElem_of_mem hm
  rw [List.length_take] at hj
  rw [List.getElem_take] at he
  exact hbefore j (by omega) (decide_eq_true he)

theorem readLine_append {line : Bytes} (h : 0x0A ∉ line) (rest : Bytes) :
    readLine (line ++ str "\r\n" ++ rest) = some (line, rest) := by
  have hsplit : line ++ str "\r\n" ++ rest = (line ++ [0x0D]) ++ 0x0A :: rest := by simp [str]
  have hline : (0x0A : UInt8) ∉ line ++ [0x0D] := by simpa using h
  rw [readLine, hsplit, cut_append hline]
  simp

theorem isToken_notMem {s : Bytes} (h : isToken s = true) {c : UInt8} (hc : isTokenByte c = false) :
    c ∉ s := by
  intro hm
  rw [isToken, Bool.and_eq_true, List.all_eq_true] at h
  cases (h.2 c hm).symm.trans hc

theorem trimBlanks_cons {b : UInt8} (hb : isBlank b = true) (s : Bytes) :
    trimBlanks (b :: s) = trimBlanks s := by
  rw [trimBlanks, List.dropWhile_cons_of_pos hb, trimBlanks]

theorem parseField_fieldLine {f : Bytes × Bytes} (hf : PlainField f) :
    parseField (f.1 ++ str ": " ++ f.2) = some f := by
  have hsplit : f.1 ++ str ": " ++ f.2 = f.1 ++ chr ':' :: (chr ' ' :: f.2) := by simp [str, chr]
  have hbytes : (chr ' ' :: f.2).all isFieldByte = true := by
    rw [List.all_cons, Bool.and_eq_true, List.all_eq_true]
    exact ⟨by decide, hf.bytes⟩
  rw [parseField, hsplit, cut_append (isToken_notMem hf.name (by decide))]
  dsimp only
  rw [if_pos ⟨hf.name, hbytes⟩, trimBlanks_cons (by decide), hf.trimmed]

theorem isFieldByte_newline : isFieldByte 0x0A = false := by decide

theorem readFields_render {fields : List (Bytes × Bytes)} (hf : ∀ f ∈ fields, PlainField f)
    (body : Bytes) {fuel : ℕ} (hfuel : fields.length < fuel) :
    readFields fuel (fields.flatMap fieldLine ++ str "\r\n" ++ body) = some (fields, body) := by
  induction fields generalizing fuel with
  | nil =>
    obtain ⟨fuel, rfl⟩ := Nat.exists_eq_succ_of_ne_zero (by omega : fuel ≠ 0)
    have hline : readLine (str "\r\n" ++ body) = some ([], body) :=
      readLine_append List.not_mem_nil body
    rw [List.flatMap_nil, List.nil_append, readFields, hline]
    rfl
  | cons f fields ih =>
    obtain ⟨fuel, rfl⟩ := Nat.exists_eq_succ_of_ne_zero (by omega : fuel ≠ 0)
    simp only [List.mem_cons, forall_eq_or_imp] at hf
    obtain ⟨hplain, hf⟩ := hf
    have hnewline : 0x0A ∉ f.1 ++ str ": " ++ f.2 := by
      simp only [List.mem_append, not_or]
      refine ⟨⟨isToken_notMem hplain.name (by decide), by decide⟩, ?_⟩
      intro hm
      cases (hplain.bytes _ hm).symm.trans isFieldByte_newline
    have hne : f.1 ++ str ": " ++ f.2 ≠ [] := by simp [str]
    rw [List.flatMap_cons, List.append_assoc, List.append_assoc, fieldLine, readFields,
      readLine_append hnewline, ← List.append_assoc]
    dsimp only
    rw [if_neg hne, parseField_fieldLine hplain, ih hf (by simpa using hfuel)]
    rfl

theorem length_le_flatMap_fieldLine (fields : List (Bytes × Bytes)) :
    fields.length ≤ (fields.flatMap fieldLine).length := by
  induction fields with
  | nil => simp
  | cons f fields ih =>
    rw [List.flatMap_cons, List.length_append, List.length_cons]
    have hpos : 1 ≤ (fieldLine f).length := by
      have htwo : (str "\r\n").length = 2 := by decide
      rw [fieldLine, List.length_append]
      omega
    omega

/-- A head of plain parts reads as it is written, and what follows it is left. -/
theorem parseHead_render {h : Head} (hmethod : isToken h.method = true) (htarget : chr ' ' ∉ h.target)
    (hnewline : 0x0A ∉ h.target) (hf : ∀ f ∈ h.fields, PlainField f) (body : Bytes) :
    parseHead (h.render ++ body) = some (h, body) := by
  obtain ⟨method, target, fields⟩ := h
  dsimp only at hmethod htarget hnewline hf
  have hline : 0x0A ∉ method ++ str " " ++ target ++ str " HTTP/1.1" := by
    simp only [List.mem_append, not_or]
    exact ⟨⟨⟨isToken_notMem hmethod (by decide), by decide⟩, hnewline⟩, by decide⟩
  have hrequest : parseRequestLine (method ++ str " " ++ target ++ str " HTTP/1.1") =
      some (method, target) := by
    have hsplit : method ++ str " " ++ target ++ str " HTTP/1.1" =
        method ++ chr ' ' :: (target ++ chr ' ' :: str "HTTP/1.1") := by simp [str, chr]
    rw [parseRequestLine, hsplit, cut_append (isToken_notMem hmethod (by decide))]
    dsimp only
    rw [cut_append htarget]
    dsimp only
    rw [if_pos ⟨hmethod, rfl⟩]
  have hrender : Head.render ⟨method, target, fields⟩ ++ body =
      (method ++ str " " ++ target ++ str " HTTP/1.1") ++ str "\r\n" ++
        (fields.flatMap fieldLine ++ str "\r\n" ++ body) := by
    have hversion : str " HTTP/1.1\r\n" = str " HTTP/1.1" ++ str "\r\n" := by decide
    simp only [Head.render, hversion, List.append_assoc]
  have hfuel : fields.length < (fields.flatMap fieldLine ++ str "\r\n" ++ body).length := by
    have hle := length_le_flatMap_fieldLine fields
    have htwo : (str "\r\n").length = 2 := by decide
    simp only [List.length_append]
    omega
  rw [parseHead, hrender, readLine_append hline]
  dsimp only
  rw [hrequest, readFields_render hf body hfuel]
  rfl

/-! ## Lengths -/

theorem decimal_digits {l : List Char} (h : ∀ c ∈ l, c.isDigit = true) (n : ℕ) :
    (l.map fun c => UInt8.ofNat c.toNat).foldl (fun n c => n * 10 + (c.toNat - 48)) n =
      Nat.ofDigitChars 10 l n := by
  induction l generalizing n with
  | nil => simp
  | cons c l ih =>
    simp only [List.mem_cons, forall_eq_or_imp] at h
    have hc : c.toNat < 256 := by
      have hd := h.1
      simp only [Char.isDigit, Bool.and_eq_true, decide_eq_true_eq] at hd
      have hle : c.toNat ≤ 57 := hd.2
      omega
    have hbyte : (UInt8.ofNat c.toNat).toNat = c.toNat := by
      rw [UInt8.toNat_ofNat']
      exact Nat.mod_eq_of_lt hc
    rw [List.map_cons, List.foldl_cons, ih h.2, Nat.ofDigitChars_cons, hbyte, Nat.mul_comm]
    rfl

theorem isDigit_ofNat {c : Char} (h : c.isDigit = true) :
    isDigit (UInt8.ofNat c.toNat) = true := by
  simp only [Char.isDigit, Bool.and_eq_true, decide_eq_true_eq] at h
  have hlo : 48 ≤ c.toNat := h.1
  have hhi : c.toNat ≤ 57 := h.2
  rw [isDigit_iff, UInt8.toNat_ofNat', Nat.mod_eq_of_lt (by omega)]
  exact ⟨hlo, hhi⟩

/-- A length reads as it is written. -/
theorem parseLength_toString (n : ℕ) : parseLength (str (toString n)) = some n := by
  have hdigits : ∀ c ∈ Nat.toDigits 10 n, c.isDigit = true := fun c hc =>
    Nat.isDigit_of_mem_toDigits (by decide) (by decide) hc
  have hstr : str (toString n) = (Nat.toDigits 10 n).map fun c => UInt8.ofNat c.toNat := by
    rw [str, Nat.toString_eq_ofList_toDigits, String.toList_ofList]
  rw [hstr, parseLength, if_pos]
  · rw [decimal, decimal_digits hdigits, Nat.ofDigitChars_ten_toDigits]
  · constructor
    · simp [Nat.toDigits_ne_nil]
    · rw [List.all_eq_true]
      intro b hb
      obtain ⟨c, hc, rfl⟩ := List.mem_map.mp hb
      exact isDigit_ofNat (hdigits c hc)

theorem digits_of_parseLength {v : Bytes} {n : ℕ} (h : parseLength v = some n) :
    ∀ b ∈ v, isDigit b = true := by
  unfold parseLength at h
  split_ifs at h with hv
  exact List.all_eq_true.mp hv.2

theorem isFieldByte_of_isDigit {b : UInt8} (h : isDigit b = true) :
    isFieldByte b = true ∧ isBlank b = false ∧ b < 0x80 := by
  revert b
  apply forall_byte
  decide +kernel

theorem trimBlanks_eq_self {s : Bytes} (h : ∀ b ∈ s.head?, isBlank b = false)
    (hl : ∀ b ∈ s.getLast?, isBlank b = false) : trimBlanks s = s := by
  have hdrop : ∀ {s : Bytes}, (∀ b ∈ s.head?, isBlank b = false) → s.dropWhile isBlank = s := by
    intro s h
    cases s with
    | nil => rfl
    | cons b s => exact List.dropWhile_cons_of_neg (by simp [h b rfl])
  rw [trimBlanks, hdrop h, hdrop (by simpa using hl), List.reverse_reverse]

end HeadFwd.Net
