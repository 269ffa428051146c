import Nublado.Foundations.Bytes
import Nublado.Foundations.Json

/-!
# JupyterLab WebSocket protocol

A message of the binary protocol begins with eight-byte little-endian numbers: how many offsets there
are, and the offsets of the channel, the header, the parent header, the metadata and the content, and of
the end of the message. These parts follow, the channel as text and the others as JSON.

What is encoded is decoded again (`decodeWebsocketMessage_encode`). Reading and writing JSON is the
standard library's, and a parameter.
-/

namespace Nublado.Client

/-- A message as either Text or Binary. -/
inductive WebSocketMessage
  | text (message : String)
  | binary (message : Bytes)

/-- The JSON of the standard library. -/
structure JsonCodec where
  /-- `json.loads`; absent where it raises an exception. -/
  loads : Bytes → Option Json
  /-- `json.dumps` -/
  dumps : Json → String

/-- The decoded message. -/
structure KernelMessage where
  channel : String
  header : Json
  parentHeader : Json
  metadata : Json
  content : Json

/-- An offset of a message; absent where the message has not as many. -/
def offsetOf (message : Bytes) (i : ℕ) : Option ℕ :=
  if i < (message.slice 0 8).toNat then some (message.slice (8 * (i + 1)) (8 * (i + 2))).toNat
  else none

/-- Decode a message in the JupyterLab WebSocket binary format. It is absent where an exception is
raised. -/
@[grind =] def decodeWebsocketMessage (codec : JsonCodec) : WebSocketMessage → Option KernelMessage
  | .text _ => none
  | .binary message => do
    let start ← offsetOf message 0
    let header ← offsetOf message 1
    let parentHeader ← offsetOf message 2
    let metadata ← offsetOf message 3
    let content ← offsetOf message 4
    let stop ← offsetOf message 5
    some {
      channel := ← (message.slice start header).decode
      header := ← codec.loads (message.slice header parentHeader)
      parentHeader := ← codec.loads (message.slice parentHeader metadata)
      metadata := ← codec.loads (message.slice metadata content)
      content := ← codec.loads (message.slice content stop) }

/-- The parts of a message, behind the offsets. -/
def KernelMessage.parts (codec : JsonCodec) (message : KernelMessage) : List Bytes :=
  .encode message.channel ::
    [message.header, message.parentHeader, message.metadata, message.content].map fun part ↦
      .encode (codec.dumps part)

/-- Construct a message in the JupyterLab WebSocket binary format. The offset of each part is that of the
part before it and the length of that. -/
def encodeWebsocketMessage (codec : JsonCodec) (message : KernelMessage) : WebSocketMessage :=
  let parts := message.parts codec
  let offsets := (parts.map List.length).scanl (· + ·) (8 * (1 + 1 + 4 + 1))
  .binary (Bytes.ofNat 8 offsets.length ++ (offsets.flatMap (Bytes.ofNat 8) ++ parts.flatten))

/-! ### Round trip -/

/-- **What is encoded is decoded again**, where the JSON of its parts is and the offsets fit. -/
theorem decodeWebsocketMessage_encode (codec : JsonCodec) (message : KernelMessage)
    (hloads : ∀ part ∈ [message.header, message.parentHeader, message.metadata, message.content],
      codec.loads (.encode (codec.dumps part)) = some part)
    (hlength : 56 + (message.parts codec).flatten.length < 2 ^ 64) :
    decodeWebsocketMessage codec (encodeWebsocketMessage codec message) = some message := by
  obtain ⟨channel, header, parentHeader, metadata, content⟩ := message
  simp only [List.forall_mem_cons, List.not_mem_nil, false_implies, implies_true, and_true] at hloads
  obtain ⟨hheader, hparent, hmetadata, hcontent⟩ := hloads
  set c := Bytes.encode channel with hc
  set h := Bytes.encode (codec.dumps header) with hh
  set p := Bytes.encode (codec.dumps parentHeader) with hp
  set m := Bytes.encode (codec.dumps metadata) with hm
  set k := Bytes.encode (codec.dumps content) with hk
  have hsize : 56 + (c.length + (h.length + (p.length + (m.length + k.length)))) < 256 ^ 8 := by
    have hparts : ((⟨channel, header, parentHeader, metadata, content⟩ : KernelMessage).parts
        codec).flatten.length = c.length + (h.length + (p.length + (m.length + k.length))) := by
      simp [KernelMessage.parts, hc, hh, hp, hm, hk]
    omega
  -- the message is the concatenation of its numbers and its parts
  let o (n : ℕ) : Bytes := Bytes.ofNat 8 n
  let parts : List Bytes := [o 6, o 56, o (56 + c.length), o (56 + c.length + h.length),
    o (56 + c.length + h.length + p.length), o (56 + c.length + h.length + p.length + m.length),
    o (56 + c.length + h.length + p.length + m.length + k.length), c, h, p, m, k]
  have hmessage : encodeWebsocketMessage codec ⟨channel, header, parentHeader, metadata, content⟩ =
      .binary parts.flatten := by
    simp [encodeWebsocketMessage, KernelMessage.parts, parts, o, ← hc, ← hh, ← hp, ← hm, ← hk]
  have hoffset : ∀ i < 6, ∀ n, parts[i + 1]? = some (o n) → n < 256 ^ 8 →
      offsetOf parts.flatten i = some n := by
    intro i hi n hn hsmall
    have hcount : Bytes.slice parts.flatten 0 8 = o 6 :=
      Bytes.slice_flatten (i := 0) rfl rfl (by simp [o])
    have hpart : Bytes.slice parts.flatten (8 * (i + 1)) (8 * (i + 2)) = o n := by
      have htake : ∀ j < 6, 8 * (j + 1) = (parts.take (j + 1)).flatten.length := by
        intro j hj
        rcases (by omega : j = 0 ∨ j = 1 ∨ j = 2 ∨ j = 3 ∨ j = 4 ∨ j = 5) with
          rfl | rfl | rfl | rfl | rfl | rfl <;> simp [parts, o]
      refine Bytes.slice_flatten hn (htake i hi) ?_
      simp only [o, Bytes.length_ofNat]
      omega
    rw [offsetOf, hcount, hpart, Bytes.toNat_ofNat (by omega), if_pos hi, Bytes.toNat_ofNat hsmall]
  have hslice : ∀ i part a b, parts[i + 7]? = some part → a = (parts.take (i + 7)).flatten.length →
      b = a + part.length → Bytes.slice parts.flatten a b = part :=
    fun _ _ _ _ h ha hb ↦ Bytes.slice_flatten h ha hb
  rw [hmessage, decodeWebsocketMessage, hoffset 0 (by omega) _ rfl (by omega),
    hoffset 1 (by omega) _ rfl (by omega), hoffset 2 (by omega) _ rfl (by omega),
    hoffset 3 (by omega) _ rfl (by omega), hoffset 4 (by omega) _ rfl (by omega),
    hoffset 5 (by omega) _ rfl (by omega)]
  simp only [Option.bind_eq_bind, Option.bind_some]
  rw [hslice 0 c _ _ rfl (by simp [parts, o]) rfl,
    hslice 1 h _ _ rfl (by simp [parts, o]; omega) rfl,
    hslice 2 p _ _ rfl (by simp [parts, o]; omega) rfl,
    hslice 3 m _ _ rfl (by simp [parts, o]; omega) rfl,
    hslice 4 k _ _ rfl (by simp [parts, o]; omega) rfl, Bytes.decode_encode, hheader, hparent, hmetadata,
    hcontent]
  rfl

end Nublado.Client
