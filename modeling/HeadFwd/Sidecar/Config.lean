import HeadFwd.Net.Head
import HeadFwd.Sidecar.Register

/-! # The server URL in the Headscale configuration

The sidecar writes its public URL into the configuration file of Headscale. It
looks for the first line that sets the URL, decides by the value whether it may
replace it, and appends a line when there is none.
-/

namespace HeadFwd.Sidecar

open Text Net

/-- What reading the configuration gives after an update, and what the update returns. -/
structure ConfigUpdate where
  file : Except Bytes Bytes
  result : Except Bytes Bool
  deriving DecidableEq

/-- What writing the file does: all of it, or an error with other contents left behind. -/
abbrev ConfigWrite := Except (Bytes × Bytes) Unit

namespace Config

def newline : UInt8 := chr '\n'

def isServerURL (line : Bytes) : Bool := (str "server_url:").isPrefixOf (trimSpace line)

/-- The value that a line gives to the URL. -/
def current (line : Bytes) : Bytes := trimSpace (trimPrefix (trimSpace line) (str "server_url:"))

/-- The leading spaces and tabs. -/
def indent (line : Bytes) : Bytes := line.take (line.length - (line.dropWhile isBlank).length)

def replace (line publicURL : Bytes) : Bytes := indent line ++ str "server_url: " ++ publicURL

section Values

variable (lowerRune : Bytes → Bytes)

/-- `strings.ToLower`; the lower case of a character outside ASCII is given. -/
def lower (s : Bytes) : Bytes := (runes s).flatMap fun
  | .ascii b => [lowerByte b]
  | .multi bs => lowerRune bs
  | .invalid => Rune.replacement

def isDefaultServerURL (value : Bytes) : Bool :=
  lower lowerRune value ∈ [[], str "http://127.0.0.1:8080", str "http://localhost:8080",
    str "http://headscale:8080"]

def shouldUpdateHeadfwdURL (current desired : Bytes) : Bool :=
  if !(str ".headfwd.net").isSuffixOf (lower lowerRune current) then false
  else lower lowerRune current ≠ lower lowerRune desired

/-- The value is left alone. -/
def refuses (force : Bool) (current publicURL : Bytes) : Bool :=
  !force && !isDefaultServerURL lowerRune current &&
    !shouldUpdateHeadfwdURL lowerRune current publicURL

/-- The loop over the lines; `none` when no line sets the URL. -/
def updateLines (publicURL : Bytes) (force : Bool) : List Bytes → Except Bytes (Option (List Bytes))
  | [] => .ok none
  | line :: lines =>
    if isServerURL line then
      if refuses lowerRune force (current line) publicURL then
        .error (str "server_url already set (" ++ current line ++ str ")")
      else .ok (some (replace line publicURL :: lines))
    else (updateLines publicURL force lines).map (Option.map (line :: ·))

end Values

end Config

open Config

variable (lowerRune : Bytes → Bytes)

/-- The variable `updated` of the source is set on every way to its last test. -/
def updateServerURL (file : Except Bytes Bytes) (publicURL : Bytes) (force : Bool)
    (write : ConfigWrite) : ConfigUpdate :=
  if publicURL = [] then ⟨file, .error (str "missing public URL")⟩
  else
    match file with
    | .error text => ⟨file, .error (str "failed to read config: " ++ text)⟩
    | .ok data =>
      let lines := data.splitOn newline
      match updateLines lowerRune publicURL force lines with
      | .error text => ⟨file, .error text⟩
      | .ok found =>
        let lines := found.getD (lines ++ [str "server_url: " ++ publicURL])
        match write with
        | .ok () => ⟨.ok ([newline].intercalate lines), .ok true⟩
        | .error (text, left) => ⟨.ok left, .error (str "failed to write config: " ++ text)⟩

namespace Config

variable {lowerRune} {publicURL : Bytes} {force : Bool} {lines : List Bytes}

/-- The lines of a file split at the first one that sets the URL. -/
theorem first_cases (lines : List Bytes) :
    (∀ l ∈ lines, isServerURL l = false) ∨
    ∃ front line back, lines = front ++ line :: back ∧ (∀ l ∈ front, isServerURL l = false) ∧
      isServerURL line = true := by
  cases h : lines.find? isServerURL with
  | none =>
    left
    intro l hl
    simpa using List.find?_eq_none.mp h l hl
  | some line =>
    obtain ⟨hline, front, back, hlines, hfront⟩ := List.find?_eq_some_iff_append.mp h
    refine .inr ⟨front, line, back, hlines, fun l hl => ?_, hline⟩
    simpa using hfront l hl

theorem updateLines_none (h : ∀ l ∈ lines, isServerURL l = false) :
    updateLines lowerRune publicURL force lines = .ok none := by
  induction lines with
  | nil => rfl
  | cons l lines ih =>
    have hl := h l List.mem_cons_self
    rw [updateLines, hl, ih fun m hm => h m (List.mem_cons_of_mem l hm)]
    rfl

theorem updateLines_append {front back : List Bytes} {line : Bytes}
    (hf : ∀ l ∈ front, isServerURL l = false) (hl : isServerURL line = true) :
    updateLines lowerRune publicURL force (front ++ line :: back) =
      if refuses lowerRune force (current line) publicURL then
        .error (str "server_url already set (" ++ current line ++ str ")")
      else .ok (some (front ++ replace line publicURL :: back)) := by
  induction front with
  | nil => rw [List.nil_append, updateLines, if_pos hl]; rfl
  | cons l front ih =>
    have hlf := hf l List.mem_cons_self
    rw [List.cons_append, updateLines, hlf, ih fun m hm => hf m (List.mem_cons_of_mem l hm),
      if_neg Bool.false_ne_true]
    split_ifs <;> rfl

/-- Where a file splits, no part holds the separator. -/
theorem notMem_of_mem_splitOn {α : Type*} [BEq α] [LawfulBEq α] {a : α} {s l : List α}
    (h : l ∈ s.splitOn a) : a ∉ l := by
  induction s generalizing l with
  | nil =>
    rw [List.splitOn_nil, List.mem_singleton] at h
    exact h ▸ List.not_mem_nil
  | cons b s ih =>
    rw [List.splitOn_cons_eq_if_modifyHead] at h
    split_ifs at h with hb
    · rcases List.mem_cons.mp h with rfl | h
      · exact List.not_mem_nil
      · exact ih h
    · obtain ⟨m, ms, hm⟩ := List.exists_cons_of_ne_nil (List.splitOn_ne_nil a s)
      rw [hm] at h ih
      rcases List.mem_cons.mp h with rfl | h
      · rw [List.mem_cons, not_or]
        exact ⟨fun he => hb (beq_iff_eq.mpr he.symm), ih List.mem_cons_self⟩
      · exact ih (List.mem_cons_of_mem m h)

theorem indent_eq (line : Bytes) : indent line = line.takeWhile isBlank := by
  have hsplit := List.takeWhile_append_dropWhile (p := isBlank) (l := line)
  have hlen := congrArg List.length hsplit
  rw [List.length_append] at hlen
  have hk : line.length - (line.dropWhile isBlank).length = (line.takeWhile isBlank).length := by
    omega
  rw [indent, hk]
  exact (List.prefix_iff_eq_take.mp (List.takeWhile_prefix _)).symm

/-- Blanks in front of a text that has no white space at its ends are trimmed. -/
theorem trimSpace_blanks_append {ws s : Bytes} (hw : ∀ b ∈ ws, isBlank b = true)
    (hfront : ∀ p ∈ spaces, ¬ p <+: s) (hback : ∀ p ∈ spaces.map List.reverse, ¬ p <+: s.reverse) :
    trimSpace (ws ++ s) = s := by
  have hfind : ∀ b ∈ ws, ∀ t, spaces.find? (fun p => p.isPrefixOf (b :: t)) = some [b] := by
    intro b hb t
    have hblank := hw b hb
    simp only [isBlank, Bool.or_eq_true, decide_eq_true_eq] at hblank
    rcases hblank with rfl | rfl <;> rfl
  have hdrop : dropSpaces spaces (ws ++ s).length (ws ++ s) = s := by
    rw [dropSpaces_append hfind (by simp), dropSpaces_eq_self hfront]
  rw [trimSpace, hdrop, dropSpaces_eq_self hback, List.reverse_reverse]

/-- A text that begins with a letter of the key and ends with one of the domain. -/
theorem not_prefix_of_head {b : UInt8} {s : Bytes} {sp : List Bytes}
    (h : ∀ p ∈ sp, p.head? ≠ some b ∧ p ≠ []) (p : Bytes) (hp : p ∈ sp) : ¬ p <+: b :: s := by
  obtain ⟨hhead, hne⟩ := h p hp
  obtain ⟨c, q, rfl⟩ := List.exists_cons_of_ne_nil hne
  intro hpre
  exact hhead (congrArg some (List.cons_prefix_cons.mp hpre).1)

/-- The URLs that the sidecar writes. -/
structure Written (publicURL : Bytes) : Prop where
  trimmed : ∀ ws, (∀ b ∈ ws, isBlank b = true) →
    trimSpace (ws ++ str "server_url: " ++ publicURL) = str "server_url: " ++ publicURL
  newline_notMem : newline ∉ str "server_url: " ++ publicURL

theorem Written.replaced (h : Written publicURL) (line : Bytes) :
    isServerURL (replace line publicURL) = true ∧
      replace (replace line publicURL) publicURL = replace line publicURL := by
  have hblank : ∀ b ∈ indent line, isBlank b = true := by
    intro b hb
    rw [indent_eq] at hb
    exact List.mem_takeWhile_imp hb
  have hindent : indent (replace line publicURL) = indent line := by
    rw [indent_eq, replace, List.append_assoc, List.takeWhile_append_of_pos hblank]
    exact List.append_nil _
  constructor
  · rw [isServerURL, replace, h.trimmed _ hblank]
    exact List.isPrefixOf_iff_prefix.mpr ⟨str " " ++ publicURL, rfl⟩
  · rw [replace, hindent, replace]

theorem written_publicURLFromFingerprint {fingerprint : Bytes} (hne : fingerprint ≠ [])
    (hhex : ∀ b ∈ fingerprint, (hexVal b).isSome) :
    Written (publicURLFromFingerprint fingerprint) := by
  have hu : str "server_url: " ++ publicURLFromFingerprint fingerprint =
      chr 's' :: (str "erver_url: https://" ++ fingerprint ++ str ".headfwd.net") := by
    rw [publicURLFromFingerprint, if_neg hne]
    rfl
  constructor
  · intro ws hw
    rw [List.append_assoc, hu]
    apply trimSpace_blanks_append hw
    · exact not_prefix_of_head (by decide)
    · rw [← List.cons_append, List.reverse_append]
      exact not_prefix_of_head (b := chr 't') (by decide +kernel)
  · have hfp : newline ∉ fingerprint := fun hm => absurd (hhex _ hm) (by decide)
    have hfront : newline ∉ str "server_url: https://" := by decide +kernel
    have hback : newline ∉ str ".headfwd.net" := by decide +kernel
    have hcut : str "server_url: " ++ publicURLFromFingerprint fingerprint =
        str "server_url: https://" ++ (fingerprint ++ str ".headfwd.net") := hu
    rw [hcut, List.mem_append, List.mem_append]
    exact not_or.mpr ⟨hfront, not_or.mpr ⟨hfp, hback⟩⟩

/-- The lines after an update that took place: the first line that sets the URL is replaced, or a
line is appended. -/
def Edited (publicURL : Bytes) (old new : List Bytes) : Prop :=
  (∃ front line back, old = front ++ line :: back ∧ (∀ l ∈ front, isServerURL l = false) ∧
    isServerURL line = true ∧
    new = front ++ (line.takeWhile isBlank ++ str "server_url: " ++ publicURL) :: back) ∨
  (∀ l ∈ old, isServerURL l = false) ∧ new = old ++ [str "server_url: " ++ publicURL]

section Update

variable {data line : Bytes} {front back : List Bytes}

theorem updateServerURL_none (hne : publicURL ≠ [])
    (h : ∀ l ∈ data.splitOn newline, isServerURL l = false) :
    updateServerURL lowerRune (.ok data) publicURL force (.ok ()) =
      ⟨.ok ([newline].intercalate (data.splitOn newline ++ [replace [] publicURL])), .ok true⟩ := by
  rw [updateServerURL, if_neg hne]
  dsimp only
  rw [updateLines_none h]
  rfl

theorem updateServerURL_first (hne : publicURL ≠ [])
    (hs : data.splitOn newline = front ++ line :: back) (hf : ∀ l ∈ front, isServerURL l = false)
    (hl : isServerURL line = true) :
    updateServerURL lowerRune (.ok data) publicURL force (.ok ()) =
      if refuses lowerRune force (current line) publicURL then
        ⟨.ok data, .error (str "server_url already set (" ++ current line ++ str ")")⟩
      else ⟨.ok ([newline].intercalate (front ++ replace line publicURL :: back)), .ok true⟩ := by
  rw [updateServerURL, if_neg hne]
  dsimp only
  rw [hs, updateLines_append hf hl]
  split_ifs <;> rfl

/-- A file in which the first such line is one that the sidecar wrote stays as it is. -/
theorem Written.settled (h : Written publicURL) (hne : publicURL ≠ [])
    (hs : data.splitOn newline = front ++ replace line publicURL :: back)
    (hf : ∀ l ∈ front, isServerURL l = false) :
    (updateServerURL lowerRune (.ok data) publicURL force (.ok ())).file = .ok data := by
  obtain ⟨hl, hagain⟩ := h.replaced line
  rw [updateServerURL_first hne hs hf hl]
  split_ifs
  · rfl
  · rw [hagain, ← hs, List.intercalate_splitOn]

/-- The lines of a file are read back after one of them was written. -/
theorem Written.splitOn_intercalate (h : Written publicURL)
    (hf : ∀ l ∈ front, newline ∉ l) (hl : newline ∉ line) (hb : ∀ l ∈ back, newline ∉ l) :
    ([newline].intercalate (front ++ replace line publicURL :: back)).splitOn newline =
      front ++ replace line publicURL :: back := by
  apply List.splitOn_intercalate
  · intro l hm
    rcases List.mem_append.mp hm with hm | hm
    · exact hf l hm
    · rcases List.mem_cons.mp hm with rfl | hm
      · rw [replace, indent_eq, List.append_assoc, List.mem_append]
        exact not_or.mpr ⟨fun hw => hl ((List.takeWhile_prefix _).subset hw), h.newline_notMem⟩
      · exact hb l hm
  · simp

/-- The file after an update of which the lines are known. -/
theorem Written.splitOn_first (h : Written publicURL)
    (hs : data.splitOn newline = front ++ line :: back) :
    ([newline].intercalate (front ++ replace line publicURL :: back)).splitOn newline =
      front ++ replace line publicURL :: back := by
  have hold : ∀ l ∈ front ++ line :: back, newline ∉ l :=
    fun l hl => notMem_of_mem_splitOn (hs ▸ hl)
  apply h.splitOn_intercalate
  · exact fun l hl => hold l (List.mem_append_left _ hl)
  · exact hold line (by simp)
  · exact fun l hl => hold l (List.mem_append_right _ (List.mem_cons_of_mem line hl))

theorem Written.splitOn_none (h : Written publicURL) :
    ([newline].intercalate (data.splitOn newline ++ [replace [] publicURL])).splitOn newline =
      data.splitOn newline ++ [replace [] publicURL] :=
  h.splitOn_intercalate (fun _ hl => notMem_of_mem_splitOn hl) List.not_mem_nil (by simp)

theorem edited_of_updated (h : Written publicURL) (hne : publicURL ≠ [])
    (hr : (updateServerURL lowerRune (.ok data) publicURL force (.ok ())).result = .ok true) :
    ∃ new, (updateServerURL lowerRune (.ok data) publicURL force (.ok ())).file = .ok new ∧
      Edited publicURL (data.splitOn newline) (new.splitOn newline) := by
  rcases first_cases (data.splitOn newline) with hnone | ⟨front, line, back, hs, hf, hl⟩
  · rw [updateServerURL_none hne hnone]
    refine ⟨_, rfl, ?_⟩
    rw [h.splitOn_none]
    exact .inr ⟨hnone, rfl⟩
  · rw [updateServerURL_first hne hs hf hl] at hr ⊢
    split_ifs at hr ⊢
    refine ⟨_, rfl, ?_⟩
    rw [h.splitOn_first hs, hs]
    refine .inl ⟨front, line, back, rfl, hf, hl, ?_⟩
    rw [replace, indent_eq]

theorem file_of_error (hne : publicURL ≠ []) {e : Bytes}
    (hr : (updateServerURL lowerRune (.ok data) publicURL force (.ok ())).result = .error e) :
    (updateServerURL lowerRune (.ok data) publicURL force (.ok ())).file = .ok data := by
  rcases first_cases (data.splitOn newline) with hnone | ⟨front, line, back, hs, hf, hl⟩
  · rw [updateServerURL_none hne hnone] at hr
    cases hr
  · rw [updateServerURL_first hne hs hf hl] at hr ⊢
    split_ifs at hr ⊢
    rfl

/-- A value that is no default and outside the domain is kept. -/
theorem file_of_foreign (hne : publicURL ≠ [])
    (hline : (data.splitOn newline).find? isServerURL = some line)
    (hd : isDefaultServerURL lowerRune (current line) = false)
    (hd' : ¬ str ".headfwd.net" <:+ lower lowerRune (current line)) :
    (updateServerURL lowerRune (.ok data) publicURL false (.ok ())).file = .ok data := by
  obtain ⟨hl, front, back, hs, hf⟩ := List.find?_eq_some_iff_append.mp hline
  have hr : refuses lowerRune false (current line) publicURL = true := by
    have hsuffix := mt List.isSuffixOf_iff_suffix.mp hd'
    simp [refuses, hd, shouldUpdateHeadfwdURL, hsuffix]
  rw [updateServerURL_first hne hs (fun l hm => by simpa using hf l hm) hl, if_pos hr]

/-- A second update leaves the file as the first one did. -/
theorem update_update (h : Written publicURL) (hne : publicURL ≠ []) :
    let r := updateServerURL lowerRune (.ok data) publicURL force (.ok ())
    (updateServerURL lowerRune r.file publicURL force (.ok ())).file = r.file := by
  intro r
  rcases first_cases (data.splitOn newline) with hnone | ⟨front, line, back, hs, hf, hl⟩
  · have hr : r = _ := updateServerURL_none hne hnone
    rw [hr]
    exact h.settled hne h.splitOn_none hnone
  · have hr : r = _ := updateServerURL_first hne hs hf hl
    rw [hr]
    split_ifs with hrefused
    · rw [updateServerURL_first hne hs hf hl, if_pos hrefused]
    · exact h.settled hne (h.splitOn_first hs) hf

end Update

end Config

/-- For every configuration and the URL of a fingerprint: an update that takes place edits the one
line, one that is refused leaves the file alone, a value that is neither a default nor in the domain
in either case is kept without force, and a second update changes nothing. -/
theorem updateServerURL_edits_line (lowerRune : Bytes → Bytes) {fingerprint : Bytes}
    (hne : fingerprint ≠ []) (hhex : ∀ b ∈ fingerprint, (hexVal b).isSome) (data : Bytes)
    (force : Bool) :
    let publicURL := publicURLFromFingerprint fingerprint
    let r := updateServerURL lowerRune (.ok data) publicURL force (.ok ())
    (r.result = .ok true → ∃ new, r.file = .ok new ∧
      Edited publicURL (data.splitOn newline) (new.splitOn newline)) ∧
    (∀ e, r.result = .error e → r.file = .ok data) ∧
    (force = false → ∀ line, (data.splitOn newline).find? isServerURL = some line →
      isDefaultServerURL lowerRune (current line) = false →
      ¬ str ".headfwd.net" <:+ lower lowerRune (current line) → r.file = .ok data) ∧
    (updateServerURL lowerRune r.file publicURL force (.ok ())).file = r.file := by
  intro publicURL r
  have hw : Written publicURL := written_publicURLFromFingerprint hne hhex
  have hu : publicURL ≠ [] := by
    simp only [publicURL, publicURLFromFingerprint, if_neg hne]
    exact List.append_ne_nil_of_right_ne_nil _ (by decide)
  refine ⟨edited_of_updated hw hu, fun e => file_of_error hu, ?_, update_update hw hu⟩
  rintro rfl line
  exact file_of_foreign hu

/-- A configuration with comments and the default value. -/
def defaultConfig : Bytes :=
  str "# server_url: old\n  server_url: http://127.0.0.1:8080\r\nlisten_addr: 0.0.0.0:8080\n"

theorem updateServerURL_edits_line_default :
    (updateServerURL id (.ok defaultConfig) (publicURLFromFingerprint (str "0a")) false
      (.ok ())).file = .ok (str ("# server_url: old\n  server_url: https://0a.headfwd.net\n" ++
        "listen_addr: 0.0.0.0:8080\n")) ∧
    (updateServerURL id (updateServerURL id (.ok defaultConfig)
      (publicURLFromFingerprint (str "0a")) false (.ok ())).file
        (publicURLFromFingerprint (str "0a")) false (.ok ())).file =
      (updateServerURL id (.ok defaultConfig) (publicURLFromFingerprint (str "0a")) false
        (.ok ())).file := by
  have hne : str "0a" ≠ [] := by decide
  have h := updateServerURL_edits_line id hne (by decide +kernel) defaultConfig false
  exact ⟨by decide +kernel, h.2.2.2⟩

/-- The domain in capital letters is not the suffix that is looked for, but the value is replaced
all the same. -/
theorem updateServerURL_replaces_capitals :
    let line := str "server_url: https://0B.HEADFWD.NET"
    line.splitOn newline = [line] ∧ isServerURL line = true ∧
      current line = str "https://0B.HEADFWD.NET" ∧
      isDefaultServerURL id (current line) = false ∧ ¬ str ".headfwd.net" <:+ current line ∧
      (updateServerURL id (.ok line) (publicURLFromFingerprint (str "0a")) false (.ok ())).file =
        .ok (str "server_url: https://0a.headfwd.net") := by
  decide +kernel

end HeadFwd.Sidecar
