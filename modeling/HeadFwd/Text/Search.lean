import HeadFwd.Text.Bytes

/-! # Searching for line ends

The first occurrence of a marker in a text, also when the text arrives in parts,
and the parts of a text between its line ends of carriage return and line feed.
-/

namespace HeadFwd.Text

/-- Where a marker begins for the first time. -/
def rangeOf (p s : Bytes) : Option ℕ := s.tails.findIdx? fun t => p.isPrefixOf t

section Range

variable {p s t : Bytes} {i : ℕ}

theorem rangeOf_cons (b : UInt8) (s : Bytes) :
    rangeOf p (b :: s) = if p <+: b :: s then some 0 else (rangeOf p s).map (· + 1) := by
  have htails : (b :: s).tails = (b :: s) :: s.tails := rfl
  rw [rangeOf, htails, List.findIdx?_cons]
  by_cases h : p <+: b :: s
  · rw [if_pos h, if_pos (List.isPrefixOf_iff_prefix.mpr h)]
  · rw [if_neg h, if_neg (mt List.isPrefixOf_iff_prefix.mp h)]
    rfl

theorem length_le_of_rangeOf (h : rangeOf p s = some i) : i + p.length ≤ s.length := by
  induction s generalizing i with
  | nil =>
    cases p with
    | nil =>
      cases h
      exact le_rfl
    | cons b p => cases h
  | cons b s ih =>
    rw [rangeOf_cons] at h
    split_ifs at h with hp
    · cases h
      simpa using hp.length_le
    · obtain ⟨j, hj, rfl⟩ := Option.map_eq_some_iff.mp h
      have hle := ih hj
      rw [List.length_cons]
      omega

/-- A marker that has been found stays where it is when the text goes on. -/
theorem rangeOf_append (h : rangeOf p s = some i) (t : Bytes) : rangeOf p (s ++ t) = some i := by
  induction s generalizing i with
  | nil =>
    cases p with
    | nil =>
      cases h
      cases t <;> rfl
    | cons b p => cases h
  | cons b s ih =>
    rw [List.cons_append, rangeOf_cons]
    rw [rangeOf_cons] at h
    split_ifs at h with hp
    · have hlong : p <+: b :: (s ++ t) := hp.trans ⟨t, rfl⟩
      rw [if_pos hlong, ← h]
    · obtain ⟨j, hj, rfl⟩ := Option.map_eq_some_iff.mp h
      have hlen := length_le_of_rangeOf hj
      have hshort : ¬ p <+: b :: (s ++ t) := by
        intro hlong
        refine hp (List.prefix_of_prefix_length_le hlong ⟨t, rfl⟩ ?_)
        rw [List.length_cons]
        omega
      rw [if_neg hshort, ih hj]
      rfl

end Range

def crlf : Bytes := [0x0D, 0x0A]

/-- The end of a head: a line end followed by an empty line. -/
def crlf2 : Bytes := [0x0D, 0x0A, 0x0D, 0x0A]

/-- The parts between the line ends. -/
def splitCrlf : Bytes → List Bytes
  | [] => [[]]
  | b :: s =>
    match b, s with
    | 0x0D, 0x0A :: s => [] :: splitCrlf s
    | b, s => (splitCrlf s).modifyHead (b :: ·)

/-- The lines of a head before the empty one: none is empty or holds a carriage return. -/
def Lines (lines : List Bytes) : Prop := ∀ line ∈ lines, line ≠ [] ∧ 0x0D ∉ line

section Lines

variable {line : Bytes} {lines : List Bytes}

theorem splitCrlf_cons {b : UInt8} (hb : b ≠ 0x0D) (s : Bytes) :
    splitCrlf (b :: s) = (splitCrlf s).modifyHead (b :: ·) := by
  rw [splitCrlf]
  rintro s rfl
  exact absurd rfl hb

theorem splitCrlf_line (h : 0x0D ∉ line) : splitCrlf line = [line] := by
  induction line with
  | nil => rfl
  | cons b line ih =>
    rw [List.mem_cons, not_or] at h
    rw [splitCrlf_cons (Ne.symm h.1), ih h.2]
    rfl

theorem splitCrlf_append (h : 0x0D ∉ line) (s : Bytes) :
    splitCrlf (line ++ (crlf ++ s)) = line :: splitCrlf s := by
  induction line with
  | nil => rfl
  | cons b line ih =>
    rw [List.mem_cons, not_or] at h
    rw [List.cons_append, splitCrlf_cons (Ne.symm h.1), ih h.2]
    rfl

/-- Lines are read back from between their ends. -/
theorem splitCrlf_intercalate (h : Lines lines) (hne : lines ≠ []) :
    splitCrlf (crlf.intercalate lines) = lines := by
  induction lines with
  | nil => exact absurd rfl hne
  | cons line lines ih =>
    have hline := (h line List.mem_cons_self).2
    cases lines with
    | nil =>
      rw [List.intercalate_singleton]
      exact splitCrlf_line hline
    | cons next lines =>
      rw [List.intercalate_cons_cons, List.append_assoc, splitCrlf_append hline,
        ih (fun l hl => h l (List.mem_cons_of_mem line hl)) (List.cons_ne_nil _ _)]

theorem rangeOf_line (h : 0x0D ∉ line) (s : Bytes) :
    rangeOf crlf2 (line ++ s) = (rangeOf crlf2 s).map (· + line.length) := by
  induction line with
  | nil => simp
  | cons b line ih =>
    rw [List.mem_cons, not_or] at h
    have hhead : ¬ crlf2 <+: b :: (line ++ s) := fun hp => h.1 (List.cons_prefix_cons.mp hp).1
    rw [List.cons_append, rangeOf_cons, if_neg hhead, ih h.2, Option.map_map]
    rfl

/-- The head of a text of lines ends where the last line does. -/
theorem rangeOf_intercalate (h : Lines lines) (hne : lines ≠ []) (rest : Bytes) :
    rangeOf crlf2 (crlf.intercalate lines ++ crlf2 ++ rest) =
      some (crlf.intercalate lines).length := by
  induction lines with
  | nil => exact absurd rfl hne
  | cons line lines ih =>
    have hline := (h line List.mem_cons_self).2
    cases lines with
    | nil =>
      have hend : rangeOf crlf2 (crlf2 ++ rest) = some 0 := by
        rw [crlf2, List.cons_append, rangeOf_cons, if_pos ⟨rest, rfl⟩]
      rw [List.intercalate_singleton, List.append_assoc, rangeOf_line hline, hend]
      simp
    | cons next lines =>
      have hlines : Lines (next :: lines) := fun l hl => h l (List.mem_cons_of_mem line hl)
      obtain ⟨hnext, hreturn⟩ := hlines next List.mem_cons_self
      obtain ⟨b, next, rfl⟩ := List.exists_cons_of_ne_nil hnext
      have hb : (0x0D : UInt8) ≠ b := fun he => hreturn (he ▸ List.mem_cons_self)
      obtain ⟨s, hs⟩ : ∃ s, crlf.intercalate ((b :: next) :: lines) ++ crlf2 ++ rest = b :: s := by
        cases lines with
        | nil => exact ⟨_, by rw [List.intercalate_singleton]; rfl⟩
        | cons l lines => exact ⟨_, by rw [List.intercalate_cons_cons]; rfl⟩
      have hsplit : crlf.intercalate (line :: (b :: next) :: lines) ++ crlf2 ++ rest =
          line ++ 0x0D :: 0x0A :: b :: s := by
        rw [List.intercalate_cons_cons, List.append_assoc, List.append_assoc, ← hs]
        simp [crlf]
      have hreturn' : ¬ crlf2 <+: 0x0D :: 0x0A :: b :: s := by
        simp [crlf2, hb]
      have hfeed : ¬ crlf2 <+: 0x0A :: b :: s := by
        simp [crlf2]
      have hrest := ih hlines (List.cons_ne_nil _ _)
      rw [hs] at hrest
      rw [hsplit, rangeOf_line hline, rangeOf_cons, if_neg hreturn', rangeOf_cons, if_neg hfeed,
        hrest, List.intercalate_cons_cons]
      simp only [Option.map_some, List.length_append, crlf, List.length_cons, List.length_nil]
      congr 1
      omega

end Lines

end HeadFwd.Text
