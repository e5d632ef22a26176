import HeadFwd.Transition.Stage
import HeadFwd.Tunnel.Message

/-! # Streams within a tunnel

A tunnel carries the chunks of many streams, each under the identifier of its
stream. What arrives for one stream is the concatenation of its own chunks.
-/

namespace HeadFwd.Tunnel

open Text Net Transition

/-- A message as the other end decodes it. -/
def TunnelMessage.wire : TunnelMessage → TunnelMessage
  | .request r => .request r.wire
  | .response r => .response r.wire
  | .wsOpen o => .wsOpen o.wire
  | .wsData d => .wsData ⟨sanitize d.id, sanitize d.data, d.isBinary⟩
  | .wsClose c => .wsClose ⟨sanitize c.id, c.code, sanitize c.reason⟩
  | m => m

/-- The stream a message opens. -/
def TunnelMessage.opens : TunnelMessage → Option Bytes
  | .wsOpen o => some o.id
  | _ => none

/-- The bytes a message has for a stream. -/
def TunnelMessage.chunk (id : Bytes) : TunnelMessage → Bytes
  | .wsData d => if d.id = id then fromBase64 d.data else []
  | _ => []

/-- The bytes that a sequence of messages has for a stream. -/
def dataOf (id : Bytes) (l : List TunnelMessage) : Bytes := l.flatMap (TunnelMessage.chunk id)

/-- The stream that a message continues or ends. -/
def TunnelMessage.follows : TunnelMessage → Option Bytes
  | .wsData d => some d.id
  | .wsClose c => some c.id
  | _ => none

variable {id : Bytes} {l l' : List TunnelMessage} {m : TunnelMessage}

@[simp] theorem dataOf_nil : dataOf id [] = [] := rfl

@[simp] theorem dataOf_append : dataOf id (l ++ l') = dataOf id l ++ dataOf id l' :=
  List.flatMap_append

@[simp] theorem dataOf_singleton : dataOf id [m] = m.chunk id := List.flatMap_singleton ..

theorem opens_eq_some : m.opens = some id ↔ ∃ o, m = .wsOpen o ∧ o.id = id := by
  cases m <;> simp [TunnelMessage.opens]

theorem chunk_eq_nil (h : ∀ d, m = .wsData d → d.id ≠ id) : m.chunk id = [] := by
  cases m with
  | wsData d => exact if_neg (h d rfl)
  | _ => rfl

theorem dataOf_eq_nil (h : ∀ d, .wsData d ∈ l → d.id ≠ id) : dataOf id l = [] := by
  rw [dataOf, List.flatMap_eq_nil_iff]
  rintro m hm
  exact chunk_eq_nil fun d hd => h d (hd ▸ hm)

theorem chunk_wire (h : ∀ d, m = .wsData d → ValidUtf8 d.id ∧ ValidUtf8 d.data) :
    m.wire.chunk id = m.chunk id := by
  cases m with
  | wsData d =>
    obtain ⟨hi, hd⟩ := h d rfl
    simp only [TunnelMessage.wire, TunnelMessage.chunk, show sanitize d.id = d.id from hi,
      show sanitize d.data = d.data from hd]
  | _ => rfl

theorem dataOf_wire (h : ∀ d, .wsData d ∈ l → ValidUtf8 d.id ∧ ValidUtf8 d.data) :
    dataOf id (l.map TunnelMessage.wire) = dataOf id l := by
  rw [dataOf, dataOf, List.flatMap_map]
  apply List.flatMap_congr
  rintro m hm
  exact chunk_wire fun d hd => h d (hd ▸ hm)

/-- What comes out of a connection for a stream is a first part of what was sent for it. -/
theorem dataOf_conveyed (id : Bytes) (hc : Conveyed TunnelMessage.wire l l')
    (h : ∀ d, .wsData d ∈ l → ValidUtf8 d.id ∧ ValidUtf8 d.data) : dataOf id l' <+: dataOf id l := by
  obtain ⟨r, hr⟩ := hc
  rw [← dataOf_wire h, ← hr, dataOf_append]
  exact List.prefix_append ..

theorem opens_wire (h : ∀ o, m = .wsOpen o → ValidUtf8 o.id) : m.wire.opens = m.opens := by
  cases m with
  | wsOpen o => exact congrArg some (h o rfl)
  | _ => rfl

theorem follows_wire (h : ∀ id, m.follows = some id → ValidUtf8 id) :
    m.wire.follows = m.follows := by
  cases m with
  | wsData d => exact congrArg some (h d.id rfl)
  | wsClose c => exact congrArg some (h c.id rfl)
  | _ => rfl

@[simp] theorem fromBase64_encodeBase64 (b : Bytes) : fromBase64 (encodeBase64 b) = b := by
  rw [fromBase64, decodeBase64_encodeBase64]
  rfl

@[simp] theorem fromBase64_toBase64 (b : Bytes) : fromBase64 (toBase64 b) = b := by
  rw [toBase64]
  split_ifs with hb
  · rw [hb]
    rfl
  · exact fromBase64_encodeBase64 b

theorem validUtf8_toBase64 (b : Bytes) : ValidUtf8 (toBase64 b) := by
  rw [toBase64]
  split_ifs
  · rfl
  · exact validUtf8_of_ascii fun c hc => lt_of_mem_encodeBase64 hc

end HeadFwd.Tunnel
