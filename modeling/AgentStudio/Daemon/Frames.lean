import AgentStudio.Library.Text
import Mathlib.Data.List.Basic

/-!
# Frames of the WebSocket

`_ws_write_frame` and `_ws_read_frame` of `agent_runtime/daemon_server.py`. A reader is the bytes
that have come and are not read yet. `readFrame` takes the payload of every frame for a message,
apart from a frame that closes: it looks neither at the bit that ends a message nor at the other
kinds of frames.

`Carries` says which messages the frames of a client carry: a message in one frame or in a text
frame and continuation frames, pings and pongs anywhere, and a frame that closes at the end.
`messages_read_iff` says that the messages are read from the frames exactly if each is in one
frame and there are no pings and pongs. What is written is read back.
-/

namespace AgentStudio.Frames

open PyText

/-! ### Bytes -/

/-- `encode("utf-8")`. -/
def encode (text : Str) : List UInt8 := text.flatMap String.utf8EncodeChar

/-- The second byte of a character of three or four bytes may be `b` if the first is `a`. -/
def leads (a b : UInt8) : Bool :=
  (if a = 0xe0 then 0xa0 else if a = 0xf0 then 0x90 else 0x80) ≤ b ∧
    b ≤ (if a = 0xed then 0x9f else if a = 0xf4 then 0x8f else 0xbf) ∧ 0xe0 ≤ a ∧ a ≤ 0xf4

/-- How many bytes are replaced at once: as many as a character could start with. -/
def badLength : List UInt8 → ℕ
  | a :: b :: s =>
    if leads a b then if 0xf0 ≤ a ∧ s.head?.any (fun c => 0x80 ≤ c ∧ c ≤ 0xbf) then 3 else 2 else 1
  | _ => 1

/-- `decode("utf-8", errors="replace")`, in a number of steps. -/
def decodeFrom : ℕ → List UInt8 → Str
  | 0, _ => []
  | n + 1, bytes =>
    if bytes = [] then []
    else match bytes.toByteArray.utf8DecodeChar? 0 with
      | some c => c :: decodeFrom n (bytes.drop c.utf8Size)
      | none => '\uFFFD' :: decodeFrom n (bytes.drop (badLength bytes))

/-- `decode("utf-8", errors="replace")`. -/
def decode (bytes : List UInt8) : Str := decodeFrom bytes.length bytes

/-- A number in big-endian bytes, as `struct.pack` writes it. -/
def pack : ℕ → ℕ → List UInt8
  | 0, _ => []
  | width + 1, n => pack width (n / 256) ++ [.ofNat n]

/-- `struct.unpack`. -/
def unpack (bytes : List UInt8) : ℕ := bytes.foldl (fun n b => 256 * n + b.toNat) 0

/-- `readexactly`, which raises if there are too few bytes. -/
def readExactly (n : ℕ) (reader : List UInt8) : Option (List UInt8 × List UInt8) :=
  if n ≤ reader.length then some (reader.splitAt n) else none

/-- The bytes of a payload, with a mask or without. -/
def unmask (key payload : List UInt8) : List UInt8 :=
  if key = [] then payload else payload.mapIdx fun i b => b ^^^ key.getD (i % 4) 0

/-- The length of a payload, from the second byte of a frame and those that follow. -/
def readLength (length : ℕ) (reader : List UInt8) : Option (ℕ × List UInt8) :=
  if length = 126 then (readExactly 2 reader).map (Prod.map unpack id)
  else if length = 127 then (readExactly 8 reader).map (Prod.map unpack id)
  else some (length, reader)

/-- `_ws_read_frame`: a message, or `none` for a frame that closes. -/
def readFrame : List UInt8 → Option (Option Str × List UInt8)
  | head :: second :: reader => do
    let opcode := head &&& 0x0f
    let (length, reader) ← readLength (second &&& 0x7f).toNat reader
    let (maskKey, reader) ← if second &&& 0x80 ≠ 0 then readExactly 4 reader else some ([], reader)
    let (payload, reader) ← readExactly length reader
    some (if opcode = 0x8 then none else some (decode (unmask maskKey payload)), reader)
  | _ => none

/-- `_ws_write_frame`; a length of `2 ^ 64` does not fit. -/
def writeFrame (data : Str) : Option (List UInt8) :=
  let payload := encode data
  let length := payload.length
  if length ≤ 125 then some ([0x81, .ofNat length] ++ payload)
  else if length ≤ 65535 then some ([0x81, 126] ++ pack 2 length ++ payload)
  else if length < 2 ^ 64 then some ([0x81, 127] ++ pack 8 length ++ payload)
  else none

/-- Successive calls of `_ws_read_frame`. -/
def readFrames : ℕ → List UInt8 → Option (List (Option Str) × List UInt8)
  | 0, reader => some ([], reader)
  | n + 1, reader => do
    let (message, reader) ← readFrame reader
    let (messages, reader) ← readFrames n reader
    some (message :: messages, reader)

/-! ### Frames -/

structure Frame where
  head : UInt8
  key : List UInt8
  payload : List UInt8
  key_length : key = [] ∨ key.length = 4
  payload_length : payload.length < 2 ^ 64

def Frame.opcode (f : Frame) : UInt8 := f.head &&& 0x0f

def Frame.fin (f : Frame) : Bool := f.head &&& 0x80 ≠ 0

/-- The form of a length: the value in the second byte, and the bytes that follow. -/
def lengthForm (n : ℕ) : ℕ × List UInt8 :=
  if n ≤ 125 then (n, []) else if n ≤ 65535 then (126, pack 2 n) else (127, pack 8 n)

def Frame.bytes (f : Frame) : List UInt8 :=
  f.head :: ((if f.key = [] then 0 else 0x80) ||| .ofNat (lengthForm f.payload.length).1) ::
    ((lengthForm f.payload.length).2 ++ (f.key ++ unmask f.key f.payload))

/-- The frames of a client carry these messages, after the part of a message that has come. -/
inductive Carries : Option (List UInt8) → List Frame → List Str → Prop
  | close (f : Frame) : f.fin = true → f.opcode = 8 → Carries none [f] []
  | control (f : Frame) {part frames messages} : f.fin = true → f.opcode = 9 ∨ f.opcode = 10 →
      Carries part frames messages → Carries part (f :: frames) messages
  | fragment (f : Frame) {part frames messages} : f.fin = false →
      f.opcode = (if part.isSome then 0 else 1) →
      Carries (some (part.getD [] ++ f.payload)) frames messages →
      Carries part (f :: frames) messages
  | last (f : Frame) {part frames messages} (message : Str) : f.fin = true →
      f.opcode = (if part.isSome then 0 else 1) →
      part.getD [] ++ f.payload = encode message → Carries none frames messages →
      Carries part (f :: frames) (message :: messages)

/-! ### What is read -/

theorem decodeFrom_encode {n : ℕ} {text : Str} (h : (encode text).length ≤ n) :
    decodeFrom n (encode text) = text := by
  induction text generalizing n with
  | nil => cases n <;> simp [decodeFrom, encode]
  | cons c text ih =>
    have hcons : encode (c :: text) = String.utf8EncodeChar c ++ encode text := by simp [encode]
    have hpos := c.utf8Size_pos
    rw [hcons, List.length_append, String.length_utf8EncodeChar] at h
    obtain ⟨n, rfl⟩ : ∃ m, n = m + 1 := ⟨n - 1, by omega⟩
    rw [hcons, decodeFrom, if_neg (by simp [String.utf8EncodeChar_ne_nil]),
      List.toByteArray_append, ByteArray.utf8DecodeChar?_utf8EncodeChar_append]
    dsimp only
    rw [List.drop_left' (String.length_utf8EncodeChar c), ih (by omega)]

theorem decode_encode (text : Str) : decode (encode text) = text := decodeFrom_encode le_rfl

theorem length_pack (width n : ℕ) : (pack width n).length = width := by
  induction width generalizing n with
  | zero => rfl
  | succ width ih => simp [pack, ih]

theorem unpack_pack {width n : ℕ} (h : n < 256 ^ width) : unpack (pack width n) = n := by
  induction width generalizing n with
  | zero => exact (Nat.lt_one_iff.mp h).symm
  | succ width ih =>
    have hdiv : n / 256 < 256 ^ width := Nat.div_lt_of_lt_mul (by rwa [← pow_succ'])
    have hih := ih hdiv
    simp only [unpack] at hih
    simp only [pack, unpack, List.foldl_append, hih, List.foldl_cons, List.foldl_nil,
      UInt8.toNat_ofNat']
    omega

theorem readExactly_append {n : ℕ} {bytes : List UInt8} (h : bytes.length = n)
    (rest : List UInt8) : readExactly n (bytes ++ rest) = some (bytes, rest) := by
  simp [readExactly, List.splitAt_eq, ← h]

theorem length_unmask (key payload : List UInt8) :
    (unmask key payload).length = payload.length := by
  rw [unmask]
  split_ifs <;> simp

theorem unmask_unmask (key payload : List UInt8) : unmask key (unmask key payload) = payload := by
  rw [unmask, unmask]
  split_ifs
  · rfl
  · refine List.ext_getElem (by simp) fun i _ _ => ?_
    simp [UInt8.xor_assoc]

theorem readLength_lengthForm {n : ℕ} (h : n < 2 ^ 64) (rest : List UInt8) :
    readLength (lengthForm n).1 ((lengthForm n).2 ++ rest) = some (n, rest) := by
  rw [lengthForm]
  split_ifs with hshort hmedium
  · rw [readLength, if_neg (by omega), if_neg (by omega)]
    rfl
  · have hpack : unpack (pack 2 n) = n := unpack_pack (by omega)
    simp [readLength, readExactly_append (length_pack 2 n), hpack]
  · have hpack : unpack (pack 8 n) = n := unpack_pack (by omega)
    simp [readLength, readExactly_append (length_pack 8 n), hpack]

/-- The second byte of a frame. -/
theorem second_byte : ∀ n < 128, ((0 ||| UInt8.ofNat n) &&& 0x80 = 0 ∧
    (0x80 ||| UInt8.ofNat n) &&& 0x80 ≠ 0) ∧ ((0 ||| UInt8.ofNat n) &&& 0x7f).toNat = n ∧
      ((0x80 ||| UInt8.ofNat n) &&& 0x7f).toNat = n := by
  decide +kernel

theorem lengthForm_lt (n : ℕ) : (lengthForm n).1 < 128 := by
  rw [lengthForm]
  split_ifs <;> omega

def Frame.read (f : Frame) : Option Str := if f.opcode = 8 then none else some (decode f.payload)

theorem readFrame_bytes (f : Frame) (rest : List UInt8) :
    readFrame (f.bytes ++ rest) = some (f.read, rest) := by
  obtain ⟨⟨hplain, hmasked⟩, hzero, hhigh⟩ := second_byte _ (lengthForm_lt f.payload.length)
  have hlength := readLength_lengthForm f.payload_length
  have hpayload := readExactly_append (length_unmask f.key f.payload) rest
  simp only [Frame.bytes, List.cons_append, List.append_assoc, readFrame]
  by_cases hkey : f.key = []
  · rw [hkey] at hpayload
    simp only [hkey, if_true, hplain, hzero, hlength, ne_eq, not_true_eq_false, if_false,
      List.nil_append, Option.bind_eq_bind, Option.bind_some, hpayload, unmask_unmask]
    rfl
  · have hfour := readExactly_append (f.key_length.resolve_left hkey)
    simp only [hkey, if_false, hmasked, hhigh, hlength, ne_eq, not_false_eq_true, if_true, hfour,
      Option.bind_eq_bind, Option.bind_some, hpayload, unmask_unmask]
    rfl

theorem readFrames_bytes (frames : List Frame) (rest : List UInt8) :
    readFrames frames.length (frames.flatMap Frame.bytes ++ rest) =
      some (frames.map Frame.read, rest) := by
  induction frames with
  | nil => rfl
  | cons f frames ih =>
    simp [readFrames, readFrame_bytes, ih]

/-- What is written is read back. -/
theorem readFrame_writeFrame {data : Str} {bytes : List UInt8} (h : writeFrame data = some bytes)
    (rest : List UInt8) : readFrame (bytes ++ rest) = some (some data, rest) := by
  have hbytes : ∃ hfits, bytes = Frame.bytes ⟨0x81, [], encode data, Or.inl rfl, hfits⟩ := by
    rw [writeFrame] at h
    split_ifs at h with hshort hmedium hfits <;> cases h
    · exact ⟨by omega, by simp [Frame.bytes, lengthForm, hshort, unmask]⟩
    · exact ⟨by omega, by simp [Frame.bytes, lengthForm, hshort, hmedium, unmask]⟩
    · exact ⟨hfits, by simp [Frame.bytes, lengthForm, hshort, hmedium, unmask]⟩
  obtain ⟨hfits, rfl⟩ := hbytes
  have htext : (0x81 : UInt8) &&& 0x0f ≠ 8 := by decide
  rw [readFrame_bytes, Frame.read, Frame.opcode, if_neg htext, decode_encode]

/-- A message is in one frame, and there are no pings and pongs. -/
def Frame.Simple (f : Frame) : Prop := f.fin = true ∧ (f.opcode = 1 ∨ f.opcode = 8)

/-- There are more frames than messages, and one more only if all are simple. -/
theorem Carries.length_le {part : Option (List UInt8)} {frames : List Frame} {messages : List Str}
    (h : Carries part frames messages) : messages.length + 1 ≤ frames.length ∧
      (part = none → frames.length = messages.length + 1 → ∀ f ∈ frames, f.Simple) := by
  induction h with
  | close f hfin hop => simp [Frame.Simple, hfin, hop]
  | control f hfin hop hrest ih =>
    refine ⟨by simp; omega, fun _ hlength => ?_⟩
    simp at hlength
    omega
  | fragment f hfin hop hrest ih =>
    refine ⟨by simp; omega, fun _ hlength => ?_⟩
    simp at hlength
    omega
  | last f message hfin hop hpayload hrest ih =>
    refine ⟨by simp; omega, fun hpart hlength => List.forall_mem_cons.mpr ⟨?_, ?_⟩⟩
    · subst hpart
      exact ⟨hfin, Or.inl hop⟩
    · exact ih.2 rfl (by simpa using hlength)

/-- Simple frames are read as the messages. -/
theorem Carries.map_read {part : Option (List UInt8)} {frames : List Frame} {messages : List Str}
    (h : Carries part frames messages) (hpart : part = none) (hsimple : ∀ f ∈ frames, f.Simple) :
    frames.map Frame.read = messages.map some ++ [none] := by
  induction h with
  | close f hfin hop => simp [Frame.read, hop]
  | control f hfin hop hrest ih =>
    obtain ⟨-, hone | height⟩ := hsimple f List.mem_cons_self <;> simp_all
  | fragment f hfin hop hrest ih =>
    exact absurd (hsimple f List.mem_cons_self).1 (by simp [hfin])
  | last f message hfin hop hpayload hrest ih =>
    subst hpart
    have hread : f.read = some message := by
      have htext : f.payload = encode message := hpayload
      rw [Frame.read, if_neg (by simp [hop]), htext, decode_encode]
    simp [hread, ih rfl fun g hg => hsimple g (List.mem_cons_of_mem f hg)]

/-- **Messages.** What is written is read back; and the messages that the frames of a client carry
are read from them, and then the end, exactly if each is in one frame and there are no pings and
pongs. -/
theorem messages_read_iff {frames : List Frame} {messages : List Str}
    (h : Carries none frames messages) :
    (∀ (data : List Str) (written : List (List UInt8)), data.mapM writeFrame = some written →
      readFrames data.length written.flatten = some (data.map some, [])) ∧
    (readFrames (messages.length + 1) (frames.flatMap Frame.bytes) =
      some (messages.map some ++ [none], []) ↔ ∀ f ∈ frames, f.Simple) := by
  constructor
  · intro data
    induction data with
    | nil => rintro _ ⟨⟩; rfl
    | cons d data ih =>
      intro written h
      obtain ⟨bytes, hbytes, rest, hrest, rfl⟩ : ∃ b, writeFrame d = some b ∧ ∃ r,
          data.mapM writeFrame = some r ∧ b :: r = written := by
        simpa [List.mapM_cons, Option.bind_eq_some_iff] using h
      simp [readFrames, readFrame_writeFrame hbytes, ih rest hrest]
  · obtain ⟨hle, hsimple⟩ := h.length_le
    constructor
    · intro hread
      have hrest := readFrames_bytes (frames.take (messages.length + 1))
        ((frames.drop (messages.length + 1)).flatMap Frame.bytes)
      rw [← List.flatMap_append, List.take_append_drop, List.length_take, min_eq_left hle,
        hread] at hrest
      have hnil := (Prod.mk.inj (Option.some.inj hrest)).2.symm
      have hdrop : frames.drop (messages.length + 1) = [] :=
        List.eq_nil_iff_forall_not_mem.mpr fun f hf =>
          List.cons_ne_nil _ _ (List.flatMap_eq_nil_iff.mp hnil f hf)
      exact hsimple rfl (le_antisymm (List.drop_eq_nil_iff.mp hdrop) hle)
    · intro hall
      have hmap := h.map_read rfl hall
      have hlength : frames.length = messages.length + 1 := by
        simpa using congrArg List.length hmap
      have hread := readFrames_bytes frames []
      rwa [List.append_nil, hlength, hmap] at hread

def clientFrame (head : UInt8) (payload : List UInt8) : Frame where
  head := head
  key := [1, 2, 3, 4]
  payload := payload.take 125
  key_length := Or.inr rfl
  payload_length := by
    rw [List.length_take]
    omega

/-- A message that is written, and one of a client in one frame, and the end. -/
theorem messages_read_hello :
    readFrames 1 [0x81, 2, 104, 105] = some ([some ['h', 'i']], []) ∧
      readFrames 2 ([clientFrame 0x81 [104, 105], clientFrame 0x88 []].flatMap Frame.bytes) =
        some ([some ['h', 'i'], none], []) := by
  have hcarries : Carries none [clientFrame 0x81 [104, 105], clientFrame 0x88 []] ["hi"] :=
    .last _ "hi" rfl rfl rfl (.close _ rfl rfl)
  obtain ⟨hwritten, hread⟩ := messages_read_iff hcarries
  exact ⟨hwritten ["hi"] [[0x81, 2, 104, 105]] rfl, hread.mpr (by simp [Frame.Simple]; decide)⟩

/-- A message in two frames is read as two. -/
theorem not_messages_read : ¬ ∀ (frames : List Frame) (messages : List Str),
    Carries none frames messages → readFrames (messages.length + 1) (frames.flatMap Frame.bytes) =
      some (messages.map some ++ [none], []) := by
  intro h
  have hread := h [clientFrame 0x01 [104], clientFrame 0x80 [105], clientFrame 0x88 []] ["hi"]
    (.fragment _ rfl rfl (.last _ "hi" rfl rfl rfl (.close _ rfl rfl)))
  exact absurd hread (by decide +kernel)

end AgentStudio.Frames
