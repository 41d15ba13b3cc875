import AnySpans.Json.Reader
import AnySpans.Json.Writer
import AnySpans.Number.Count
import AnySpans.Server.Message
import AnySpans.Text.Word

/-!
# Frames of messages

The type server writes each message in a frame: header lines, of which one gives the length of the
body in bytes, an empty line, and the body.  `readMessage` reads the first message of a stream of
bytes; while bytes are missing it tells what their end would mean.
-/

namespace AnySpans.Server

open AnySpans.Json AnySpans.Number AnySpans.Text

/-- Why bytes are no messages. -/
inductive FrameError where
  /-- A header line is not text. -/
  | notText
  /-- No header gives the length. -/
  | noLength
  /-- The bytes end inside a body. -/
  | cutOff
  /-- The body is said to be longer than any that can be held. -/
  | tooLong
  /-- The body is no message. -/
  | notMessage
deriving DecidableEq, Repr, Inhabited

/-- What bytes begin with. -/
inductive Reading where
  | message (m : Message) (rest : List UInt8)
  | refused (e : FrameError)
  /-- There are too few bytes; the error, if any, that they are when no more follow. -/
  | short (e : Option FrameError)
deriving Inhabited, Repr

/-- The largest length of a body that can be held. -/
def lengthLimit : Nat := Nat.pow 2 63 - 1

/-- The header that gives the length of the body. -/
def lengthHeader : List Char := "Content-Length:".toList

/-- The characters that bytes stand for. -/
def textOf? (bytes : List UInt8) : Option (List Char) :=
  (String.fromUTF8? ⟨bytes.toArray⟩).map String.toList

/-- The first line, without its line feed, and what follows it. -/
def firstLine? : List UInt8 → Option (List UInt8 × List UInt8)
  | [] => none
  | b :: bs => if b = 10 then some ([], bs) else (firstLine? bs).map fun (line, rest) => (b :: line, rest)

theorem length_of_firstLine? {bytes line rest : List UInt8} (h : firstLine? bytes = some (line, rest)) :
    rest.length < bytes.length := by
  induction bytes generalizing line with
  | nil => simp [firstLine?] at h
  | cons b bs ih =>
    simp only [firstLine?] at h
    split at h
    · simp only [Option.some.injEq, Prod.mk.injEq] at h
      simp [← h.2]
    · obtain ⟨⟨l, r⟩, hr, he⟩ := Option.map_eq_some_iff.1 h
      simp only [Prod.mk.injEq] at he
      obtain ⟨_, rfl⟩ := he
      have := ih hr
      simp only [List.length_cons]
      omega

/-- The headers of a frame as far as they matter. -/
structure Headers where
  /-- There was a line that is not blank. -/
  begun : Bool
  /-- The length given last, if it could be read. -/
  length : Option Nat
deriving DecidableEq, Repr, Inhabited

namespace Headers

def none : Headers := ⟨false, .none⟩

/-- Takes a line that is not blank, without the white space around it. -/
def take (h : Headers) (line : List Char) : Headers :=
  if lengthHeader.isPrefixOf line then
    ⟨true, countWithin? (Nat.pow 2 64 - 1) (trim (line.drop lengthHeader.length))⟩
  else ⟨true, h.length⟩

/-- The error, if any, that bytes without a line feed are when no more follow. -/
def cut (h : Headers) (bytes : List UInt8) : Option FrameError :=
  match textOf? bytes with
  | .none => some .notText
  | some cs =>
    if h.begun ∧ bytes ≠ [] ∧ trim cs = [] then
      match h.length with
      | .none => some .noLength
      | some 0 => some .notMessage
      | some n => some (if lengthLimit < n then .tooLong else .cutOff)
    else .none

end Headers

/-- What header lines come to. -/
inductive HeadersReading where
  | complete (length : Option Nat) (rest : List UInt8)
  | refused (e : FrameError)
  | short (e : Option FrameError)

/-- Reads lines up to the blank one that follows a header; blank lines before it do not count. -/
def readHeaders (h : Headers) (bytes : List UInt8) : HeadersReading :=
  match _hl : firstLine? bytes with
  | none => .short (h.cut bytes)
  | some (line, rest) =>
    match textOf? line with
    | none => .refused .notText
    | some cs =>
      let cs := trim cs
      if cs ≠ [] then readHeaders (h.take cs) rest
      else if h.begun then .complete h.length rest
      else readHeaders h rest
termination_by bytes.length
decreasing_by all_goals exact length_of_firstLine? _hl

/-- The message in a body. -/
def messageIn? (body : List UInt8) : Option Message := do
  let v ← read (← textOf? body)
  (Message.decode v).toOption

/-- Reads the first message. -/
def readMessage (bytes : List UInt8) : Reading :=
  match readHeaders .none bytes with
  | .short e => .short e
  | .refused e => .refused e
  | .complete none _ => .refused .noLength
  | .complete (some length) rest =>
    let body := rest.take length
    if lengthLimit < length then .refused .tooLong
    else if body.length < length then .short (some .cutOff)
    else match messageIn? body with
      | some m => .message m (rest.drop length)
      | none => .refused .notMessage

theorem length_of_readHeaders {h : Headers} {bytes rest : List UInt8} {length : Option Nat}
    (hr : readHeaders h bytes = .complete length rest) : rest.length < bytes.length := by
  fun_induction readHeaders h bytes with
  | case1 => cases hr
  | case2 => cases hr
  | case3 _ _ _ _ hl _ _ _ _ ih => exact Nat.lt_trans (ih hr) (length_of_firstLine? hl)
  | case4 _ _ _ _ hl =>
    cases hr
    exact length_of_firstLine? hl
  | case5 _ _ _ _ hl _ _ _ _ _ ih => exact Nat.lt_trans (ih hr) (length_of_firstLine? hl)

theorem readMessage_eq_message {bytes rest : List UInt8} {m : Message}
    (h : readMessage bytes = .message m rest) : ∃ n body,
      readHeaders .none bytes = .complete (some n) body ∧ n ≤ lengthLimit ∧ n ≤ body.length ∧
        messageIn? (body.take n) = some m ∧ rest = body.drop n := by
  unfold readMessage at h
  split at h
  · cases h
  · cases h
  · cases h
  · rename_i n body hheaders
    dsimp only at h
    by_cases hlimit : lengthLimit < n
    · rw [if_pos hlimit] at h
      cases h
    by_cases hshort : (body.take n).length < n
    · rw [if_neg hlimit, if_pos hshort] at h
      cases h
    rw [if_neg hlimit, if_neg hshort] at h
    split at h
    · rename_i m' hm
      obtain ⟨rfl, rfl⟩ := Reading.message.inj h
      rw [List.length_take] at hshort
      exact ⟨n, body, hheaders, by omega, by omega, hm, rfl⟩
    · cases h

theorem length_of_readMessage {bytes rest : List UInt8} {m : Message}
    (h : readMessage bytes = .message m rest) : rest.length < bytes.length := by
  obtain ⟨n, body, hheaders, -, -, -, rfl⟩ := readMessage_eq_message h
  have := length_of_readHeaders hheaders
  rw [List.length_drop]
  omega

/-- The messages of bytes that no more follow, and the error, if any, that ends them. -/
def readMessages (bytes : List UInt8) : List Message × Option FrameError :=
  match _h : readMessage bytes with
  | .message m rest =>
    let (ms, e) := readMessages rest
    (m :: ms, e)
  | .refused e => ([], some e)
  | .short e => ([], e)
termination_by bytes.length
decreasing_by exact length_of_readMessage _h

/-- The bytes of a text. -/
def bytesOf (cs : List Char) : List UInt8 := (String.ofList cs).toUTF8.toList

/-- A frame around a value, with one header and a line feed after the value. -/
def frame (v : Value) : List UInt8 :=
  let body := bytesOf (v.write ++ ['\n'])
  bytesOf ("Content-Length: ".toList ++ (toString body.length).toList ++ "\r\n\r\n".toList) ++ body

end AnySpans.Server
