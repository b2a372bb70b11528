import ChocoBase.Foundation.Bytes
import ChocoBase.Server.Protocol

/-!
# One message a line

A message is written as its JSON and a line break.  The reader keeps the bytes that
it has taken from the socket and not yet used in a buffer of the session, so that a
call may be dropped while it waits for more.
-/

namespace ChocoBase.Server

open ChocoBase.Foundation

namespace LineFraming

def newline : UInt8 := 10

/-- The size of the array that a call reads into. -/
def chunkSize : Nat := 1024

/-- What a call that waits for the socket sees next.  The socket is closed after the last. -/
inductive Delivery where
  | bytes (chunk : Bytes) (hchunk : chunk ≠ [] ∧ chunk.length ≤ chunkSize)
  /-- the caller does not wait any longer -/
  | dropped

def Delivery.data : Delivery → Bytes
  | bytes chunk _ => chunk
  | dropped => []

def Delivery.isDropped : Delivery → Bool
  | bytes .. => false
  | dropped => true

/-- The bytes that are still to be read. -/
def undelivered (incoming : List Delivery) : Bytes := incoming.flatMap Delivery.data

def drops (incoming : List Delivery) : Nat := incoming.countP Delivery.isDropped

variable {M : Type}

inductive Reading (M : Type) where
  | message (m : M)
  | endOfStream
  | invalid
  | dropped
  deriving DecidableEq

/-- The session's buffer, and what its calls will see of the socket. -/
structure Reader where
  buffer : Bytes
  incoming : List Delivery

/-- The first line without its end, and what follows it. -/
def splitLine : Bytes → Option (Bytes × Bytes)
  | [] => none
  | b :: bs =>
      if b = newline then some ([], bs)
      else (splitLine bs).map fun (text, rest) => (b :: text, rest)

theorem splitLine_eq_some {buffer text rest : Bytes} (h : splitLine buffer = some (text, rest)) :
    newline ∉ text ∧ buffer = text ++ newline :: rest := by
  induction buffer generalizing text with
  | nil => cases h
  | cons b bs ih =>
      unfold splitLine at h
      split at h
      · next hb =>
          cases h
          exact ⟨List.not_mem_nil, by rw [hb, List.nil_append]⟩
      · next hb =>
          obtain ⟨⟨text', rest'⟩, hsplit, heq⟩ := Option.map_eq_some_iff.mp h
          cases heq
          obtain ⟨hnot, rfl⟩ := ih hsplit
          exact ⟨by simp [hnot, Ne.symm hb], rfl⟩

theorem splitLine_eq_none {buffer : Bytes} (h : splitLine buffer = none) : newline ∉ buffer := by
  induction buffer with
  | nil => exact List.not_mem_nil
  | cons b bs ih =>
      unfold splitLine at h
      split at h
      · cases h
      · next hb => simp [ih (Option.map_eq_none_iff.mp h), Ne.symm hb]

theorem splitLine_append {text rest : Bytes} (hnot : newline ∉ text) :
    splitLine (text ++ newline :: rest) = some (text, rest) := by
  induction text with
  | nil => rfl
  | cons b text ih =>
      rw [List.mem_cons, not_or] at hnot
      rw [List.cons_append, splitLine, if_neg (Ne.symm hnot.1), ih hnot.2]
      rfl

section Read

variable (decode : Bytes → Option M)

/-- `serde_json::from_slice` and the conversion of its error -/
def parsed (text : Bytes) : Reading M :=
  match decode text with
  | some m => .message m
  | none => .invalid

/-- One call of `read_request` or `read_response`. -/
def readMessage (buffer : Bytes) (incoming : List Delivery) : Reading M × Reader :=
  match _hline : splitLine buffer with
  | some (text, rest) =>
      -- the line has left the buffer, whatever becomes of it
      if text = [] then readMessage rest incoming
      else (parsed decode text, ⟨rest, incoming⟩)
  | none =>
      match incoming with
      | [] =>
          if buffer = [] then (.endOfStream, ⟨[], []⟩)
          else (parsed decode buffer, ⟨[], []⟩)
      | .dropped :: incoming => (.dropped, ⟨buffer, incoming⟩)
      | .bytes chunk _ :: incoming => readMessage (buffer ++ chunk) incoming
termination_by (incoming.length, buffer.length)
decreasing_by
  · have hlength := congrArg List.length (splitLine_eq_some _hline).2
    rw [List.length_append, List.length_cons] at hlength
    exact Prod.Lex.right _ (by omega)
  · exact Prod.Lex.left _ _ (by simp)

end Read

def readRequest (decode : Bytes → Option Request) := readMessage decode

def readResponse (decode : Bytes → Option Response) := readMessage decode

/-- The results of so many calls, one after another. -/
def readings (read : Bytes → List Delivery → Reading M × Reader) :
    Nat → Reader → List (Reading M) × Reader
  | 0, r => ([], r)
  | n + 1, r =>
      let (reading, r) := read r.buffer r.incoming
      let (rest, r) := readings read n r
      (reading :: rest, r)

/-- What the calls return that are not dropped. -/
def returned (rs : List (Reading M)) : List (Reading M) :=
  rs.filter fun
    | .dropped => false
    | _ => true

@[simp] theorem returned_message (m : M) (rs : List (Reading M)) :
    returned (.message m :: rs) = .message m :: returned rs := rfl

@[simp] theorem returned_endOfStream (rs : List (Reading M)) :
    returned (.endOfStream :: rs) = .endOfStream :: returned rs := rfl

@[simp] theorem returned_dropped (rs : List (Reading M)) :
    returned (.dropped :: rs) = returned rs := rfl

/-! ## Writing -/

section Written

variable (encode : M → Bytes)

def writeMessage (m : M) : Bytes := encode m ++ [newline]

/-- Messages, one a line.  There may be empty lines, and the last line may have no end. -/
inductive Written : List M → Bytes → Prop
  | nil : Written [] []
  | last (m : M) : Written [m] (encode m)
  | empty {ms bs} (h : Written ms bs) : Written ms (newline :: bs)
  | line (m : M) {ms bs} (h : Written ms bs) : Written (m :: ms) (encode m ++ newline :: bs)

theorem written_writeMessage (ms : List M) : Written encode ms (ms.flatMap (writeMessage encode)) := by
  induction ms with
  | nil => exact .nil
  | cons m ms ih =>
      rw [List.flatMap_cons, writeMessage, List.append_assoc]
      exact .line m ih

/-- What the encoding of the messages is relied on for. -/
structure Encodes (decode : Bytes → Option M) (ms : List M) : Prop where
  decode_encode : ∀ m ∈ ms, decode (encode m) = some m
  no_newline : ∀ m ∈ ms, newline ∉ encode m
  ne_nil : ∀ m ∈ ms, encode m ≠ []

variable {encode} {decode : Bytes → Option M} {ms : List M}

theorem Encodes.of_cons {m : M} (h : Encodes encode decode (m :: ms)) : Encodes encode decode ms :=
  ⟨fun m hm => h.decode_encode m (.tail _ hm), fun m hm => h.no_newline m (.tail _ hm),
    fun m hm => h.ne_nil m (.tail _ hm)⟩

/-- The first line is empty or the first message. -/
theorem Written.first_line {text rest : Bytes} (hencodes : Encodes encode decode ms)
    (h : Written encode ms (text ++ newline :: rest)) (hnot : newline ∉ text) :
    text = [] ∧ Written encode ms rest ∨
      ∃ m ms', ms = m :: ms' ∧ text = encode m ∧ Written encode ms' rest := by
  generalize hbytes : text ++ newline :: rest = bytes at h
  cases h with
  | nil => simp at hbytes
  | last m =>
      have hmem : newline ∈ encode m := by simp [← hbytes]
      exact absurd hmem (hencodes.no_newline m (.head _))
  | @empty _ bs h =>
      have hsplit := (splitLine_append hnot).symm.trans (congrArg splitLine hbytes)
      cases hsplit
      exact .inl ⟨rfl, h⟩
  | @line m _ bs h =>
      have hsplit := (splitLine_append hnot).symm.trans (congrArg splitLine hbytes)
      rw [splitLine_append (hencodes.no_newline m (.head _))] at hsplit
      cases hsplit
      exact .inr ⟨m, _, rfl, rfl, h⟩

theorem Written.no_line {bytes : Bytes} (h : Written encode ms bytes) (hnot : newline ∉ bytes) :
    ms = [] ∧ bytes = [] ∨ ∃ m, ms = [m] ∧ bytes = encode m := by
  cases h with
  | nil => exact .inl ⟨rfl, rfl⟩
  | last m => exact .inr ⟨m, rfl, rfl⟩
  | empty h => simp at hnot
  | line m h => simp at hnot

/-- All bytes that a reader has not used. -/
def Reader.unread (r : Reader) : Bytes := r.buffer ++ undelivered r.incoming

/-- What a call may return when `ms` are still to be read, and what it leaves. -/
def Follows (encode : M → Bytes) (ms : List M) (r : Reader) : Reading M → Reader → Prop
  | .message m, r' =>
      drops r'.incoming ≤ drops r.incoming ∧ ∃ ms', ms = m :: ms' ∧ Written encode ms' r'.unread
  | .endOfStream, r' => ms = [] ∧ r'.unread = [] ∧ drops r'.incoming ≤ drops r.incoming
  | .invalid, _ => False
  | .dropped, r' => drops r'.incoming < drops r.incoming ∧ Written encode ms r'.unread

theorem Follows.of_incoming {r₁ r₂ r' : Reader} {reading : Reading M}
    (h : Follows encode ms r₁ reading r') (hdrops : drops r₁.incoming = drops r₂.incoming) :
    Follows encode ms r₂ reading r' := by
  unfold Follows at h ⊢
  rwa [← hdrops]

theorem parsed_encode {m : M} (hencodes : Encodes encode decode (m :: ms)) :
    parsed decode (encode m) = .message m := by
  rw [parsed, hencodes.decode_encode m (.head _)]

theorem readMessage_follows {buffer : Bytes} {incoming : List Delivery}
    (hencodes : Encodes encode decode ms)
    (h : Written encode ms (buffer ++ undelivered incoming)) :
    Follows encode ms ⟨buffer, incoming⟩ (readMessage decode buffer incoming).1
      (readMessage decode buffer incoming).2 := by
  fun_induction readMessage decode buffer incoming with
  | case1 buffer incoming rest hline ih =>
      -- an empty line; no message encodes to nothing
      obtain ⟨hnot, rfl⟩ := splitLine_eq_some hline
      rw [List.append_assoc, List.cons_append] at h
      rcases h.first_line hencodes hnot with ⟨-, h⟩ | ⟨m, ms', rfl, hnil, -⟩
      · exact (ih h).of_incoming rfl
      · exact absurd hnil.symm (hencodes.ne_nil m (.head _))
  | case2 buffer incoming text rest hline hne =>
      obtain ⟨hnot, rfl⟩ := splitLine_eq_some hline
      rw [List.append_assoc, List.cons_append] at h
      rcases h.first_line hencodes hnot with ⟨hnil, -⟩ | ⟨m, ms', rfl, rfl, hrest⟩
      · exact absurd hnil hne
      · rw [parsed_encode hencodes]
        exact ⟨le_rfl, ms', rfl, hrest⟩
  | case3 hline =>
      rcases h.no_line (splitLine_eq_none hline) with ⟨hms, -⟩ | ⟨m, rfl, hnil⟩
      · exact ⟨hms, rfl, le_rfl⟩
      · exact absurd hnil.symm (hencodes.ne_nil m (.head _))
  | case4 buffer hline hne =>
      -- the socket is closed, and the last line has no end
      have hbuffer : buffer ++ undelivered [] = buffer := List.append_nil buffer
      rw [hbuffer] at h
      rcases h.no_line (splitLine_eq_none hline) with ⟨-, hnil⟩ | ⟨m, rfl, rfl⟩
      · exact absurd hnil hne
      · rw [parsed_encode hencodes]
        exact ⟨le_rfl, [], rfl, .nil⟩
  | case5 buffer hline incoming =>
      have hdrops : drops (.dropped :: incoming) = drops incoming + 1 := List.countP_cons_of_pos rfl
      exact ⟨hdrops ▸ Nat.lt_succ_self _, h⟩
  | case6 buffer hline chunk hchunk incoming ih =>
      have hdrops : drops (.bytes chunk hchunk :: incoming) = drops incoming :=
        List.countP_cons_of_neg Bool.false_ne_true
      refine (ih ?_).of_incoming hdrops.symm
      rw [List.append_assoc]
      exact h

/-! ## Any number of calls -/

theorem readMessage_unread_nil {r : Reader} (h : r.unread = []) :
    (readMessage decode r.buffer r.incoming).2.unread = [] := by
  obtain ⟨hbuffer, hincoming⟩ := List.append_eq_nil_iff.mp h
  rw [hbuffer, readMessage.eq_def]
  cases hcase : r.incoming with
  | nil => rfl
  | cons d incoming =>
      rw [hcase] at hincoming
      cases d with
      | dropped => exact hincoming
      | bytes chunk hchunk => exact absurd (List.append_eq_nil_iff.mp hincoming).1 hchunk.1

theorem readings_unread_nil (n : Nat) {r : Reader} (h : r.unread = []) :
    (readings (readMessage decode) n r).2.unread = [] := by
  induction n generalizing r with
  | zero => exact h
  | succ n ih => exact ih (readMessage_unread_nil h)

/--
After any number of calls, those that were not dropped have returned the first messages,
each once and in order, and the end of the stream after the last.
-/
theorem readings_messages (hencodes : Encodes encode decode ms) (n : Nat) {r : Reader}
    (h : Written encode ms r.unread) :
    let after := readings (readMessage decode) n r
    n ≤ (returned after.1).length + drops r.incoming ∧
      ((∃ read rest, ms = read ++ rest ∧ returned after.1 = read.map .message ∧
          Written encode rest after.2.unread) ∨
        ∃ k, returned after.1 = ms.map .message ++ List.replicate (k + 1) .endOfStream ∧
          after.2.unread = []) := by
  induction n generalizing ms r with
  | zero => exact ⟨Nat.zero_le _, .inl ⟨[], ms, rfl, rfl, h⟩⟩
  | succ n ih =>
      have hfollows := readMessage_follows hencodes h
      rcases hcall : readMessage decode r.buffer r.incoming with ⟨reading, r'⟩
      have hreadings : readings (readMessage decode) (n + 1) r =
          (reading :: (readings (readMessage decode) n r').1,
            (readings (readMessage decode) n r').2) := by
        rw [readings, hcall]
      rw [hcall] at hfollows
      rw [hreadings]
      dsimp only at hfollows ⊢
      cases reading with
      | message m =>
          obtain ⟨hdrops, ms', rfl, hrest⟩ := hfollows
          obtain ⟨hcount, hresults⟩ := ih hencodes.of_cons hrest
          have hdrops' : drops r'.incoming ≤ drops r.incoming := hdrops
          rw [returned_message, List.length_cons]
          refine ⟨by omega, ?_⟩
          rcases hresults with ⟨read, rest, rfl, hread, hunread⟩ | ⟨k, hread, hunread⟩
          · exact .inl ⟨m :: read, rest, rfl, by rw [hread, List.map_cons], hunread⟩
          · exact .inr ⟨k, by rw [hread, List.map_cons, List.cons_append], hunread⟩
      | endOfStream =>
          obtain ⟨rfl, hnil, hdrops⟩ := hfollows
          have hdrops' : drops r'.incoming ≤ drops r.incoming := hdrops
          obtain ⟨hcount, hresults⟩ := ih hencodes (by rw [hnil]; exact .nil)
          have hunread := @readings_unread_nil _ decode n _ hnil
          rw [returned_endOfStream, List.length_cons]
          refine ⟨by omega, .inr ?_⟩
          rcases hresults with ⟨read, rest, hms, hread, -⟩ | ⟨k, hread, -⟩
          · rw [(List.append_eq_nil_iff.mp hms.symm).1] at hread
            exact ⟨0, by rw [hread]; rfl, hunread⟩
          · exact ⟨k + 1, by rw [hread]; rfl, hunread⟩
      | invalid => exact hfollows.elim
      | dropped =>
          obtain ⟨hdrops, hrest⟩ := hfollows
          obtain ⟨hcount, hresults⟩ := ih hencodes hrest
          have hdrops' : drops r'.incoming < drops r.incoming := hdrops
          rw [returned_dropped]
          exact ⟨by omega, hresults⟩

/--
After any number of calls of `read_request` on what a client wrote, those that were not
dropped have returned its first requests, each once and in order, and the end of the stream
after the last.
-/
theorem requests_read_once {encode : Request → Bytes} {decode : Bytes → Option Request}
    {requests : List Request} (hencodes : Encodes encode decode requests) {r : Reader}
    (h : Written encode requests r.unread) (n : Nat) :
    let after := readings (readRequest decode) n r
    n ≤ (returned after.1).length + drops r.incoming ∧
      ((∃ read rest, requests = read ++ rest ∧ returned after.1 = read.map .message ∧
          Written encode rest after.2.unread) ∨
        ∃ k, returned after.1 = requests.map .message ++ List.replicate (k + 1) .endOfStream ∧
          after.2.unread = []) :=
  readings_messages hencodes n h

/-- A ping in two chunks, with a call dropped in between. -/
theorem ping_read_once :
    let text : Bytes := [34, 80, 105, 110, 103, 34]
    let r : Reader := ⟨[34], [.bytes [80, 105] (by decide), .dropped,
      .bytes [110, 103, 34, newline] (by decide)]⟩
    let after := readings (readRequest fun bs => if bs = text then some .ping else none) 3 r
    3 ≤ (returned after.1).length + drops r.incoming ∧
      ((∃ read rest, [Request.ping] = read ++ rest ∧ returned after.1 = read.map .message ∧
          Written (fun _ => text) rest after.2.unread) ∨
        ∃ k, returned after.1 = [Request.ping].map .message ++ List.replicate (k + 1) .endOfStream ∧
          after.2.unread = []) :=
  @requests_read_once _ _ [.ping] ⟨by simp, by decide, by decide⟩ _
    (written_writeMessage (fun _ => [34, 80, 105, 110, 103, 34]) [Request.ping]) 3

end Written

end LineFraming

end ChocoBase.Server
