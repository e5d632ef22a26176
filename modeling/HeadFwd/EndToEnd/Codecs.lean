import HeadFwd.EndToEnd.Bodies
import HeadFwd.Js.Base64
import HeadFwd.Js.Url
import HeadFwd.Sidecar.Process
import HeadFwd.Tunnel.Streams
import HeadFwd.Worker.Settled

/-! # Binary payloads

Three programs put bytes into base64 and take them out again. The Worker builds a
string slice by slice before it encodes, the relay treats empty data apart, and each
has a decoder of its own. Any of them decodes what any of them encodes.
-/

namespace HeadFwd.EndToEnd

open Text Tunnel Js

def chunkSize : ℕ := 0x8000

theorem chunkSize_pos : 0 < chunkSize := by decide

/-- The code units of the bytes from an index on, appended slice by slice. -/
def binaryString (bytes : Bytes) (i : ℕ) (binary : JsString) : JsString :=
  if i < bytes.length then
    binaryString bytes (i + chunkSize) (binary ++ ofAscii ((bytes.drop i).take chunkSize))
  else binary
termination_by bytes.length - i
decreasing_by
  have hpos := chunkSize_pos
  omega

def workerToBase64 (bytes : Bytes) : Option JsString := btoa (binaryString bytes 0 [])

/-- A Worker whose `atob` is the one of the language. -/
def forgiving (constructs : Worker.BodyInit → Js.JsValue → Js.JsValue → Bool) : Worker.Platform :=
  ⟨atob, constructs⟩

inductive Program where
  | worker
  | relay
  | sidecar
  deriving DecidableEq, Repr

/-- The text of a payload in a message, in UTF-8. -/
def encode : Program → Bytes → Option Bytes
  | .worker, b => (workerToBase64 b).map utf8
  | .relay, b => some (toBase64 b)
  | .sidecar, b => some (encodeBase64 b)

/-- The payload for a text in a message. -/
def decode (constructs : Worker.BodyInit → Js.JsValue → Js.JsValue → Bool) :
    Program → Bytes → Option Bytes
  | .worker, s => (forgiving constructs).fromBase64 (.string ((decodeRunes s).flatMap units))
  | .relay, s => some (fromBase64 s)
  | .sidecar, s => Sidecar.payload { id := [], data := s, isBinary := true }

/-- Wherever the loop stands, the slices appended so far are the bytes before its index. -/
theorem binaryString_take (bytes : Bytes) (i : ℕ) :
    binaryString bytes i (ofAscii (bytes.take i)) = ofAscii bytes := by
  rw [binaryString]
  split_ifs with h
  · have hslice : ofAscii (bytes.take i) ++ ofAscii ((bytes.drop i).take chunkSize) =
        ofAscii (bytes.take (i + chunkSize)) := by
      rw [List.take_add, ofAscii, ofAscii, ofAscii, List.map_append]
    rw [hslice]
    exact binaryString_take bytes (i + chunkSize)
  · rw [List.take_of_length_le (Nat.le_of_not_lt h)]
termination_by bytes.length - i
decreasing_by
  have hpos := chunkSize_pos
  omega

theorem workerToBase64_eq (bytes : Bytes) :
    workerToBase64 bytes = some (ofAscii (encodeBase64 bytes)) := by
  have hloop : binaryString bytes 0 [] = ofAscii bytes := binaryString_take bytes 0
  rw [workerToBase64, hloop, btoa_ofAscii]

theorem fromBase64_forgiving (constructs : Worker.BodyInit → Js.JsValue → Js.JsValue → Bool)
    (b : Bytes) :
    (forgiving constructs).fromBase64 (.string (ofAscii (encodeBase64 b))) = some b := by
  have hbytes : (ofAscii b).map UInt16.toUInt8 = b := by
    rw [ofAscii, List.map_map]
    conv_rhs => rw [← List.map_id b]
    exact List.map_congr_left fun a _ => UInt8.toUInt8_toUInt16 a
  rw [Worker.Platform.fromBase64, forgiving, Js.JsValue.text]
  simp only [Option.bind_eq_bind, Option.bind_some, atob_encodeBase64, hbytes]
  rfl

theorem encode_eq (p : Program) (b : Bytes) : encode p b = some (encodeBase64 b) := by
  cases p with
  | worker =>
    rw [encode, workerToBase64_eq, Option.map_some,
      utf8_ofAscii fun _ hb => lt_of_mem_encodeBase64 hb]
  | relay =>
    rw [encode, toBase64]
    split_ifs with h
    · rw [h]
      rfl
    · rfl
  | sidecar => rfl

theorem decode_encodeBase64 (constructs : Worker.BodyInit → Js.JsValue → Js.JsValue → Bool)
    (p : Program) (b : Bytes) : decode constructs p (encodeBase64 b) = some b := by
  cases p with
  | worker =>
    rw [decode, units_runes_ascii fun _ hb => lt_of_mem_encodeBase64 hb, fromBase64_forgiving]
  | relay => rw [decode, fromBase64_encodeBase64]
  | sidecar => rw [decode, Sidecar.payload, if_pos rfl, decodeBase64_encodeBase64]

/-- The slices of the Worker make the standard text of the whole, each program decodes its own
texts, and any program decodes what any other encodes. -/
theorem codecs_agree (constructs : Worker.BodyInit → Js.JsValue → Js.JsValue → Bool) (b : Bytes) :
    workerToBase64 b = some (Worker.toBase64 b) ∧
      (workerToBase64 b).bind (fun s => (forgiving constructs).fromBase64 (.string s)) = some b ∧
      fromBase64 (toBase64 b) = b ∧
      ∀ p q, encode p b = some (encodeBase64 b) ∧ (encode p b).bind (decode constructs q) = some b := by
  refine ⟨?_, ?_, fromBase64_toBase64 b, fun p q => ⟨encode_eq p b, ?_⟩⟩
  · rw [workerToBase64_eq, Worker.toBase64, flatten_toChunks]
  · rw [workerToBase64_eq, Option.bind_some, fromBase64_forgiving]
  · rw [encode_eq, Option.bind_some, decode_encodeBase64]

end HeadFwd.EndToEnd
