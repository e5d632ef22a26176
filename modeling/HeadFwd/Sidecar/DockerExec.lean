import HeadFwd.Sidecar.Register

/-! # Commands in the Headscale container

The sidecar creates its API key by a command in the container. Docker sends the
output of a command as a sequence of frames, each with a header of eight bytes
that tells the stream and the length. The loop over the frames keeps what was
written to the standard output.
-/

namespace HeadFwd.Sidecar

open Text

/-- `io.ReadFull` for `n` bytes; `none` when the stream ends before. -/
def readFull (n : ℕ) (body : Bytes) : Option (Bytes × Bytes) :=
  if n ≤ body.length then some (body.take n, body.drop n) else none

/-- An `int` has 64 bits, so that no length is negative. -/
def frameSize (header : Bytes) : ℕ :=
  (header.getD 4 0).toNat <<< 24 ||| (header.getD 5 0).toNat <<< 16 |||
    (header.getD 6 0).toNat <<< 8 ||| (header.getD 7 0).toNat

/-- The loop over the frames; `none` when the fuel is used up. -/
def readFrames : ℕ → Bytes → Bytes → Option Bytes
  | 0, _, _ => none
  | fuel + 1, body, output =>
    match readFull 8 body with
    | none => some output
    | some (header, body) =>
      let size := frameSize header
      if size = 0 then readFrames fuel body output
      else
        match readFull size body with
        | none => some output
        | some (frame, body) =>
          readFrames fuel body (if header.getD 0 0 = 1 then output ++ frame else output)

/-- Every round of the loop takes eight bytes, so that the length of the body is enough fuel. -/
def execOutput (body : Bytes) : Bytes := (readFrames (body.length + 1) body []).getD []

/-- The replies of Docker: to the creation of a command, to its start and to the question for its
exit code, where `none` stands for a reply that is not used. -/
structure Docker where
  create : Bytes → List Bytes → Reply Bytes
  start : Bytes → Reply Unit
  exitCode : Bytes → Option ℤ

def dockerExec (client : Except Bytes Docker) (container : Bytes) (cmd : List Bytes) :
    Except Bytes Bytes := do
  let docker ← client
  match docker.create container cmd with
  | .failed err => throw (str "exec create: " ++ err)
  | .answered status text decoded =>
    if status ≠ 201 then
      throw (str "exec create failed (" ++ str (toString status) ++ str "): " ++ text)
    match decoded with
    | .error err => throw (str "exec create decode: " ++ err)
    | .ok id =>
      match docker.start id with
      | .failed err => throw (str "exec start: " ++ err)
      | .answered status body _ =>
        if status ≠ 200 then
          throw (str "exec start failed (" ++ str (toString status) ++ str "): " ++ body)
        match docker.exitCode id with
        | some code =>
          if code ≠ 0 then throw (str "command exited with code " ++ str (toString code))
          return trimSpace (execOutput body)
        | none => return trimSpace (execOutput body)

def bootstrapAPIKey (client : Except Bytes Docker) (container : Bytes) : Except Bytes Bytes :=
  match dockerExec client container [str "headscale", str "apikeys", str "create",
    str "--expiration", str "8760h"] with
  | .error err => .error (str "failed to create API key: " ++ err)
  | .ok key => if key = [] then .error (str "headscale returned empty API key") else .ok key

/-- What a command writes at once to one of its streams. -/
structure Frame where
  stream : UInt8
  payload : Bytes
  deriving DecidableEq, Repr

namespace Frame

def header (f : Frame) : Bytes :=
  [f.stream, 0, 0, 0, UInt8.ofNat (f.payload.length / 2 ^ 24),
    UInt8.ofNat (f.payload.length / 2 ^ 16), UInt8.ofNat (f.payload.length / 2 ^ 8),
    UInt8.ofNat f.payload.length]

def encode (f : Frame) : Bytes := f.header ++ f.payload

/-- What a frame adds to the standard output. -/
def stdout (f : Frame) : Bytes := if f.stream = 1 then f.payload else []

end Frame

def encodeFrames (l : List Frame) : Bytes := l.flatMap Frame.encode

def stdout (l : List Frame) : Bytes := l.flatMap Frame.stdout

section Frames

variable {f : Frame} {fuel : ℕ} {body output : Bytes}

theorem readFull_append (a b : Bytes) : readFull a.length (a ++ b) = some (a, b) := by
  rw [readFull, if_pos (by simp), List.take_left, List.drop_left]

theorem readFull_none {n : ℕ} (h : body.length < n) : readFull n body = none :=
  if_neg (not_le.mpr h)

theorem length_header (f : Frame) : f.header.length = 8 := rfl

/-- Bytes shifted to their places are added up. -/
theorem or_shiftLeft {a b c d : ℕ} (hb : b < 2 ^ 8) (hc : c < 2 ^ 8) (hd : d < 2 ^ 8) :
    a <<< 24 ||| b <<< 16 ||| c <<< 8 ||| d = ((a * 2 ^ 8 + b) * 2 ^ 8 + c) * 2 ^ 8 + d := by
  have hab : a <<< 24 ||| b <<< 16 = (a * 2 ^ 8 + b) <<< 16 := by
    have hlt : b <<< 16 < 2 ^ 24 := by
      rw [Nat.shiftLeft_eq]
      omega
    rw [← Nat.shiftLeft_add_eq_or_of_lt hlt]
    simp only [Nat.shiftLeft_eq]
    omega
  have habc : (a * 2 ^ 8 + b) <<< 16 ||| c <<< 8 = ((a * 2 ^ 8 + b) * 2 ^ 8 + c) <<< 8 := by
    have hlt : c <<< 8 < 2 ^ 16 := by
      rw [Nat.shiftLeft_eq]
      omega
    rw [← Nat.shiftLeft_add_eq_or_of_lt hlt]
    simp only [Nat.shiftLeft_eq]
    omega
  rw [hab, habc, ← Nat.shiftLeft_add_eq_or_of_lt hd, Nat.shiftLeft_eq]

theorem frameSize_header (h : f.payload.length < 2 ^ 32) : frameSize f.header = f.payload.length := by
  simp only [frameSize, Frame.header, List.getD_cons_succ, List.getD_cons_zero]
  rw [or_shiftLeft (UInt8.toNat_lt _) (UInt8.toNat_lt _) (UInt8.toNat_lt _)]
  simp only [UInt8.toNat_ofNat']
  omega

/-- The loop takes a whole frame. -/
theorem readFrames_encode (h : f.payload.length < 2 ^ 32) :
    readFrames (fuel + 1) (f.encode ++ body) output = readFrames fuel body (output ++ f.stdout) := by
  have hhead : readFull 8 (f.encode ++ body) = some (f.header, f.payload ++ body) := by
    rw [Frame.encode, List.append_assoc]
    exact readFull_append f.header _
  have hstream : f.header.getD 0 0 = f.stream := rfl
  simp only [readFrames, hhead, frameSize_header h, readFull_append, hstream, Frame.stdout]
  by_cases hnil : f.payload.length = 0
  · have hempty : f.payload = [] := List.length_eq_zero_iff.mp hnil
    simp [hempty]
  · rw [if_neg hnil]
    split_ifs
    · rfl
    · rw [List.append_nil]

/-- Inside a frame the loop ends. -/
theorem readFrames_cut (h : f.payload.length < 2 ^ 32) {j : ℕ} (hj : j < f.encode.length) :
    readFrames (fuel + 1) (f.encode.take j) output = some output := by
  rw [Frame.encode, List.length_append, length_header] at hj
  by_cases h8 : j < 8
  · have hnone : readFull 8 (f.encode.take j) = none := by
      apply readFull_none
      rw [List.length_take]
      omega
    rw [readFrames, hnone]
  · have hcut : f.encode.take j = f.header ++ f.payload.take (j - 8) := by
      have hheader : f.header.length ≤ j := by
        rw [length_header]
        omega
      rw [Frame.encode, List.take_append, length_header, List.take_of_length_le hheader]
    have hhead : readFull 8 (f.encode.take j) = some (f.header, f.payload.take (j - 8)) := by
      rw [hcut]
      exact readFull_append f.header _
    have hbody : readFull f.payload.length (f.payload.take (j - 8)) = none := by
      apply readFull_none
      rw [List.length_take]
      omega
    have hpos : f.payload.length ≠ 0 := by omega
    simp only [readFrames, hhead, frameSize_header h, hbody, if_neg hpos]

theorem readFrames_nil : readFrames (fuel + 1) [] output = some output := rfl

/-- The loop takes all frames. -/
theorem readFrames_encodeFrames {l : List Frame} (h : ∀ f ∈ l, f.payload.length < 2 ^ 32) :
    readFrames (fuel + l.length) (encodeFrames l ++ body) output =
      readFrames fuel body (output ++ stdout l) := by
  induction l generalizing output with
  | nil => simp [encodeFrames, stdout]
  | cons f l ih =>
    have hf := h f List.mem_cons_self
    have hl : ∀ g ∈ l, g.payload.length < 2 ^ 32 := fun g hg => h g (List.mem_cons_of_mem f hg)
    rw [encodeFrames, List.flatMap_cons, List.append_assoc, List.length_cons, ← Nat.add_assoc,
      readFrames_encode hf]
    exact (ih hl).trans (by simp only [stdout, List.flatMap_cons, List.append_assoc])

theorem length_of_readFull {n : ℕ} {a b : Bytes} (h : readFull n body = some (a, b)) :
    b.length + n = body.length := by
  unfold readFull at h
  split_ifs at h with hn
  cases h
  rw [List.length_drop]
  omega

/-- More fuel than the length of the body is enough, and makes no difference. -/
theorem readFrames_total (body output : Bytes) :
    ∃ result, ∀ fuel, body.length < fuel → readFrames fuel body output = some result := by
  induction hn : body.length using Nat.strong_induction_on generalizing body output with
  | h n ih =>
    -- One round with a smaller body left over.
    have round : ∀ rest out, rest.length + 8 ≤ n → ∃ result, ∀ fuel, n ≤ fuel →
        readFrames fuel rest out = some result := by
      intro rest out hlt
      obtain ⟨result, hr⟩ := ih rest.length (by omega) rest out rfl
      exact ⟨result, fun fuel hf => hr fuel (by omega)⟩
    have step : ∀ g : ℕ → Option Bytes, (∃ result, ∀ fuel, n ≤ fuel → g fuel = some result) →
        (∀ fuel, readFrames (fuel + 1) body output = g fuel) →
        ∃ result, ∀ fuel, n < fuel → readFrames fuel body output = some result := by
      rintro g ⟨result, hg⟩ hstep
      refine ⟨result, fun fuel hf => ?_⟩
      obtain ⟨k, rfl⟩ := Nat.exists_eq_succ_of_ne_zero (Nat.ne_of_gt (Nat.zero_lt_of_lt hf))
      rw [Nat.succ_eq_add_one, hstep, hg k (Nat.le_of_lt_succ hf)]
    cases hhead : readFull 8 body with
    | none => exact step (fun _ => some output) ⟨output, fun _ _ => rfl⟩ (by simp [readFrames, hhead])
    | some pair =>
      obtain ⟨header, rest⟩ := pair
      have hrest := length_of_readFull hhead
      by_cases hsize : frameSize header = 0
      · exact step _ (round rest output (by omega)) (by simp [readFrames, hhead, hsize])
      · cases hframe : readFull (frameSize header) rest with
        | none =>
          exact step (fun _ => some output) ⟨output, fun _ _ => rfl⟩
            (by simp [readFrames, hhead, hsize, hframe])
        | some pair =>
          obtain ⟨frame, rest'⟩ := pair
          have hrest' := length_of_readFull hframe
          have hlt : rest'.length + 8 ≤ n := by omega
          exact step _ (round rest' (if header.getD 0 0 = 1 then output ++ frame else output) hlt)
            (by simp [readFrames, hhead, hsize, hframe])

/-- What the loop gives with some fuel that is enough. -/
theorem execOutput_eq (hf : body.length < fuel) (h : readFrames fuel body [] = some output) :
    execOutput body = output := by
  obtain ⟨result, hr⟩ := readFrames_total body []
  rw [execOutput, hr _ (Nat.lt_succ_self _), Option.getD_some]
  exact Option.some.inj ((hr fuel hf).symm.trans h)

/-- Where the encoding of some frames is cut: behind a frame, or inside one. -/
theorem take_encodeFrames (l : List Frame) (k : ℕ) :
    ∃ done rest, l = done ++ rest ∧ (encodeFrames done).length ≤ k ∧
      (rest = [] ∧ (encodeFrames l).take k = encodeFrames done ∨
        ∃ f back j, rest = f :: back ∧ j < f.encode.length ∧
          k = (encodeFrames done).length + j ∧
          (encodeFrames l).take k = encodeFrames done ++ f.encode.take j) := by
  induction l generalizing k with
  | nil => exact ⟨[], [], rfl, Nat.zero_le k, .inl ⟨rfl, List.take_nil⟩⟩
  | cons f l ih =>
    have hcons : encodeFrames (f :: l) = f.encode ++ encodeFrames l := List.flatMap_cons
    by_cases hk : k < f.encode.length
    · refine ⟨[], f :: l, rfl, Nat.zero_le k, .inr ⟨f, l, k, rfl, hk, ?_, ?_⟩⟩
      · exact (Nat.zero_add k).symm
      · rw [hcons, List.take_append_of_le_length hk.le]
        rfl
    · obtain ⟨done, rest, rfl, hle, hcut⟩ := ih (k - f.encode.length)
      have hdone : encodeFrames (f :: done) = f.encode ++ encodeFrames done := List.flatMap_cons
      have htake : (encodeFrames (f :: (done ++ rest))).take k =
          f.encode ++ (encodeFrames (done ++ rest)).take (k - f.encode.length) := by
        rw [hcons, List.take_append, List.take_of_length_le (not_lt.mp hk)]
      refine ⟨f :: done, rest, rfl, ?_, ?_⟩
      · rw [hdone, List.length_append]
        omega
      · rw [htake, hdone]
        rcases hcut with ⟨hnil, hcut⟩ | ⟨g, back, j, hr, hj, hkj, hcut⟩
        · exact .inl ⟨hnil, by rw [hcut]⟩
        · refine .inr ⟨g, back, j, hr, hj, ?_, by rw [hcut, List.append_assoc]⟩
          rw [List.length_append]
          omega

/-- Complete frames followed by a part of another one. -/
theorem execOutput_cut {l : List Frame} {cut : Bytes} (h : ∀ f ∈ l, f.payload.length < 2 ^ 32)
    (hcut : ∀ fuel output, readFrames (fuel + 1) cut output = some output) :
    execOutput (encodeFrames l ++ cut) = stdout l := by
  have hfuel : (encodeFrames l ++ cut).length < (encodeFrames l ++ cut).length + 1 + l.length := by
    omega
  apply execOutput_eq hfuel
  rw [readFrames_encodeFrames h, hcut, List.nil_append]

theorem execOutput_frames {l : List Frame} (h : ∀ f ∈ l, f.payload.length < 2 ^ 32) :
    execOutput (encodeFrames l) = stdout l := by
  have hcut := execOutput_cut h fun _ _ => readFrames_nil
  rwa [List.append_nil] at hcut

end Frames

/-- For all frames the loop gives what they wrote to the standard output, and after a cut what the
complete frames before it wrote; it ends on every body. -/
theorem execOutput_encodeFrames (l : List Frame) (h : ∀ f ∈ l, f.payload.length < 2 ^ 32) :
    execOutput (encodeFrames l) = stdout l ∧
    (∀ k, ∃ done rest, l = done ++ rest ∧ (encodeFrames done).length ≤ k ∧
      (∀ f ∈ rest.head?, k < (encodeFrames (done ++ [f])).length) ∧
      execOutput ((encodeFrames l).take k) = stdout done) ∧
    ∀ body, ∃ result, ∀ fuel, body.length < fuel → readFrames fuel body [] = some result := by
  refine ⟨execOutput_frames h, fun k => ?_, fun body => readFrames_total body []⟩
  obtain ⟨done, rest, rfl, hle, hcut⟩ := take_encodeFrames l k
  have hdone : ∀ f ∈ done, f.payload.length < 2 ^ 32 := fun f hf => h f (List.mem_append_left _ hf)
  refine ⟨done, rest, rfl, hle, ?_, ?_⟩
  · rcases hcut with ⟨rfl, -⟩ | ⟨f, back, j, rfl, hj, hk, -⟩
    · simp
    · simp only [List.head?_cons, Option.mem_some_iff, forall_eq']
      rw [encodeFrames, List.flatMap_append, List.length_append, hk]
      simpa [encodeFrames] using hj
  · rcases hcut with ⟨-, hcut⟩ | ⟨f, back, j, rfl, hj, -, hcut⟩
    · rw [hcut]
      exact execOutput_frames hdone
    · rw [hcut]
      exact execOutput_cut hdone fun _ _ => readFrames_cut (h f (by simp)) hj

/-- The key is what the command wrote to its standard output, without white space at the ends. -/
theorem bootstrapAPIKey_frames {docker : Docker} {container id text : Bytes} {l : List Frame}
    (hcreate : ∀ cmd, docker.create container cmd = .answered 201 text (.ok id))
    (hstart : docker.start id = .answered 200 (encodeFrames l) (.ok ()))
    (hexit : ∀ code ∈ docker.exitCode id, code = 0) (h : ∀ f ∈ l, f.payload.length < 2 ^ 32)
    (hkey : trimSpace (stdout l) ≠ []) :
    bootstrapAPIKey (.ok docker) container = .ok (trimSpace (stdout l)) := by
  have hexec : ∀ cmd, dockerExec (.ok docker) container cmd = .ok (trimSpace (stdout l)) := by
    intro cmd
    rw [← execOutput_frames h]
    cases hcode : docker.exitCode id with
    | none => simp [dockerExec, hcreate, hstart, hcode, bind, Except.bind, pure, Except.pure]
    | some code =>
      have hzero := hexit code hcode
      simp [dockerExec, hcreate, hstart, hcode, hzero, bind, Except.bind, pure, Except.pure]
  rw [bootstrapAPIKey, hexec]
  exact if_neg hkey

/-- A key between a warning and an empty write. -/
def keyFrames : List Frame :=
  [⟨2, str "deprecated\n"⟩, ⟨1, []⟩, ⟨1, str "4bR9x"⟩, ⟨1, str "\n"⟩]

theorem execOutput_keyFrames :
    execOutput (encodeFrames keyFrames) = str "4bR9x\n" ∧
    execOutput ((encodeFrames keyFrames).take 45) = str "4bR9x" := by
  have h := execOutput_encodeFrames keyFrames (by decide)
  refine ⟨?_, by decide +kernel⟩
  rw [h.1]
  rfl

end HeadFwd.Sidecar
