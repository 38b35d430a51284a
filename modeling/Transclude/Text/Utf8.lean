import Transclude.Text.Basic

/-! UTF-8: writing code points as bytes and reading them back, with the place and the reason when
the bytes are no text. -/

namespace Transclude.Utf8

inductive Reason where
  | startByte
  | continuationByte
  | endOfData
deriving DecidableEq, Repr

def Reason.message : Reason → String
  | .startByte => "invalid start byte"
  | .continuationByte => "invalid continuation byte"
  | .endOfData => "unexpected end of data"

structure Fault where
  reason : Reason
  /-- The first byte of the stretch. -/
  byte : UInt8
  position : Nat
  length : Nat
deriving DecidableEq, Repr

def Fault.message (fault : Fault) : Text :=
  let place :=
    if fault.length = 1 then
      "byte 0x".text
        ++ [Nat.digitChar (fault.byte.toNat / 16), Nat.digitChar (fault.byte.toNat % 16)]
        ++ " in position ".text ++ Text.ofNat fault.position
    else
      "bytes in position ".text ++ Text.ofNat fault.position ++ ['-']
        ++ Text.ofNat (fault.position + fault.length - 1)
  "'utf-8' codec can't decode ".text ++ place ++ ": ".text ++ fault.reason.message.text

def encode (s : Text) : List UInt8 := s.flatMap String.utf8EncodeChar

/-- The number of bytes behind a first byte; `none` for a byte that starts nothing. -/
def trailing? (byte : UInt8) : Option Nat :=
  if byte < 0x80 then some 0
  else if byte < 0xC2 then none
  else if byte < 0xE0 then some 1
  else if byte < 0xF0 then some 2
  else if byte < 0xF5 then some 3
  else none

/-- Whether `next` may come second after `first`: overlong forms, surrogates and numbers beyond the
last code point are ruled out here. -/
def secondOk (first next : UInt8) : Bool :=
  if first = 0xE0 then 0xA0 ≤ next && next < 0xC0
  else if first = 0xED then 0x80 ≤ next && next < 0xA0
  else if first = 0xF0 then 0x90 ≤ next && next < 0xC0
  else if first = 0xF4 then 0x80 ≤ next && next < 0x90
  else 0x80 ≤ next && next < 0xC0

def isContinuation (byte : UInt8) : Bool := 0x80 ≤ byte && byte < 0xC0

/-- How many of `bytes`, up to `wanted`, may follow `first`. -/
def following (first : UInt8) (wanted : Nat) (bytes : List UInt8) : Nat :=
  match bytes.take wanted with
  | [] => 0
  | next :: others =>
    if secondOk first next then 1 + (others.takeWhile isContinuation).length else 0

def assemble (first : UInt8) (others : List UInt8) : Char :=
  let payload :=
    match others.length with
    | 0 => first.toNat
    | 1 => first.toNat % 0x20
    | 2 => first.toNat % 0x10
    | _ => first.toNat % 0x8
  Char.ofNat (others.foldl (fun n byte => n * 0x40 + byte.toNat % 0x40) payload)

theorem length_drop_lt (first : UInt8) (rest : List UInt8) (n : Nat) :
    (rest.drop n).length < (first :: rest).length := by
  simp only [List.length_drop, List.length_cons]
  omega

def decodeFrom (position : Nat) : List UInt8 → Except Fault Text
  | [] => .ok []
  | first :: rest =>
    match trailing? first with
    | none => .error ⟨.startByte, first, position, 1⟩
    | some wanted =>
      let found := following first wanted rest
      if found = wanted then
        (decodeFrom (position + 1 + wanted) (rest.drop wanted)).map
          (assemble first (rest.take wanted) :: ·)
      else
        let reason := if found = rest.length then .endOfData else .continuationByte
        .error ⟨reason, first, position, 1 + found⟩
termination_by bytes => bytes.length
decreasing_by exact length_drop_lt first rest wanted

def decode (bytes : List UInt8) : Except Fault Text := decodeFrom 0 bytes

end Transclude.Utf8
