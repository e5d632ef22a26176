import HeadFwd.Net.Head

/-! # Response heads

How a client of HTTP/1.1 reads the head of a response: a status line of version,
code of three digits and reason, and then fields as in a request.
-/

namespace HeadFwd.Net

open Text

structure ResponseHead where
  status : ℕ
  reason : Bytes
  fields : List (Bytes × Bytes)
  deriving DecidableEq

def parseStatusLine (line : Bytes) : Option (ℕ × Bytes) :=
  match cut (chr ' ') line with
  | none => none
  | some (proto, rest) =>
    match cut (chr ' ') rest with
    | none => none
    | some (code, reason) =>
      if proto = str "HTTP/1.1" ∧ code.length = 3 ∧ code.all isDigit = true then
        some (decimal code, reason)
      else none

/-- The head at the start of a text, and what follows it. -/
def parseResponseHead (s : Bytes) : Option (ResponseHead × Bytes) :=
  match readLine s with
  | none => none
  | some (line, rest) => do
    let (status, reason) ← parseStatusLine line
    let (fields, body) ← readFields rest.length rest
    return ({ status, reason, fields }, body)

/-- The values of all fields under a name in any spelling. -/
def fieldValues (fields : List (Bytes × Bytes)) (name : Bytes) : List Bytes :=
  (fields.filter fun f => toLower f.1 = toLower name).map Prod.snd

theorem fieldValues_append (fields more : List (Bytes × Bytes)) (name : Bytes) :
    fieldValues (fields ++ more) name = fieldValues fields name ++ fieldValues more name := by
  rw [fieldValues, List.filter_append, List.map_append, fieldValues, fieldValues]

def ResponseHead.render (h : ResponseHead) : Bytes :=
  str "HTTP/1.1 " ++ str (toString h.status) ++ str " " ++ h.reason ++ str "\r\n" ++
    h.fields.flatMap fieldLine ++ str "\r\n"

/-- A status is written with three digits. -/
theorem length_toString {n : ℕ} (hlo : 100 ≤ n) (hhi : n < 1000) :
    (str (toString n)).length = 3 := by
  have hstr : (str (toString n)).length = (Nat.toDigits 10 n).length := by
    rw [str, Nat.toString_eq_ofList_toDigits, String.toList_ofList, List.length_map]
  have hle : (Nat.toDigits 10 n).length ≤ 3 :=
    (Nat.length_toDigits_le_iff (by decide) (by decide)).mpr hhi
  have hgt : ¬ (Nat.toDigits 10 n).length ≤ 2 := by
    intro h
    have hlt := (Nat.length_toDigits_le_iff (by decide) (by decide)).mp h
    omega
  omega

theorem decimal_toString (n : ℕ) :
    decimal (str (toString n)) = n ∧ (str (toString n)).all isDigit = true := by
  have h := parseLength_toString n
  unfold parseLength at h
  split_ifs at h with hd
  exact ⟨Option.some.inj h, hd.2⟩

/-- A head of plain parts reads as it is written, and what follows it is left. -/
theorem parseResponseHead_render {h : ResponseHead} (hlo : 100 ≤ h.status) (hhi : h.status < 1000)
    (hreason : 0x0A ∉ h.reason) (hf : ∀ f ∈ h.fields, PlainField f) (body : Bytes) :
    parseResponseHead (h.render ++ body) = some (h, body) := by
  obtain ⟨status, reason, fields⟩ := h
  dsimp only at hlo hhi hreason hf
  obtain ⟨hdecimal, hdigits⟩ := decimal_toString status
  have hdigit : ∀ {b}, isDigit b = false → b ∉ str (toString status) := by
    intro b hb hm
    cases (List.all_eq_true.mp hdigits b hm).symm.trans hb
  have hline : 0x0A ∉ str "HTTP/1.1 " ++ str (toString status) ++ str " " ++ reason := by
    simp only [List.mem_append, not_or]
    exact ⟨⟨⟨by decide, hdigit (by decide)⟩, by decide⟩, hreason⟩
  have hstatus : parseStatusLine (str "HTTP/1.1 " ++ str (toString status) ++ str " " ++ reason) =
      some (status, reason) := by
    have hsplit : str "HTTP/1.1 " ++ str (toString status) ++ str " " ++ reason =
        str "HTTP/1.1" ++ chr ' ' :: (str (toString status) ++ chr ' ' :: reason) := by
      simp [str, chr]
    rw [parseStatusLine, hsplit, cut_append (by decide)]
    dsimp only
    rw [cut_append (hdigit (by decide))]
    dsimp only
    rw [if_pos ⟨rfl, length_toString hlo hhi, hdigits⟩, hdecimal]
  have hrender : ResponseHead.render ⟨status, reason, fields⟩ ++ body =
      (str "HTTP/1.1 " ++ str (toString status) ++ str " " ++ reason) ++ str "\r\n" ++
        (fields.flatMap fieldLine ++ str "\r\n" ++ body) := by
    simp only [ResponseHead.render, List.append_assoc]
  have hfuel : fields.length < (fields.flatMap fieldLine ++ str "\r\n" ++ body).length := by
    have hle := length_le_flatMap_fieldLine fields
    have htwo : (str "\r\n").length = 2 := by decide
    simp only [List.length_append]
    omega
  rw [parseResponseHead, hrender, readLine_append hline]
  dsimp only
  rw [hstatus, readFields_render hf body hfuel]
  rfl

end HeadFwd.Net
