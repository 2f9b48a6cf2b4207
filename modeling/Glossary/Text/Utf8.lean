/-!
Reading UTF-8. Bytes are given as numbers below 256; the first sequence that is no character is
reported with its place.
-/

namespace Glossary.Text.Utf8

inductive Reason where
  | invalidStart
  | invalidContinuation
  | unexpectedEnd
  deriving DecidableEq

def Reason.text : Reason → String
  | invalidStart => "invalid start byte"
  | invalidContinuation => "invalid continuation byte"
  | unexpectedEnd => "unexpected end of data"

/-- The bytes that begin a character without completing it, and where they stand. -/
structure Fault where
  position : Nat
  bytes : List Nat
  reason : Reason
  deriving DecidableEq

def hexByte (n : Nat) : String :=
  let ds := Nat.toDigits 16 n
  String.ofList ('0' :: 'x' :: List.replicate (2 - ds.length) '0' ++ ds)

def Fault.message (f : Fault) : String :=
  "'utf-8' codec can't decode " ++
    (match f.bytes with
      | [b] => "byte " ++ hexByte b ++ " in position " ++ toString f.position
      | bs =>
          "bytes in position " ++ toString f.position ++ "-" ++
            toString (f.position + bs.length - 1)) ++
    ": " ++ f.reason.text

/-- How many bytes follow the first byte of a longer sequence. -/
def following (b : Nat) : Nat :=
  if b < 0xe0 then 1 else if b < 0xf0 then 2 else 3

/-- The bytes that may come second. The limits keep out overlong forms, surrogates, and numbers
past the last code point. -/
def isSecond (b c : Nat) : Bool :=
  (if b = 0xe0 then 0xa0 else if b = 0xf0 then 0x90 else 0x80) ≤ c &&
    c ≤ (if b = 0xed then 0x9f else if b = 0xf4 then 0x8f else 0xbf)

def isContinuation (c : Nat) : Bool :=
  0x80 ≤ c && c ≤ 0xbf

/-- The characters of bytes that stand at the given position. -/
def decodeAt (position : Nat) : List Nat → Except Fault (List Char)
  | [] => .ok []
  | b :: rest =>
      if b < 0x80 then (decodeAt (position + 1) rest).map (Char.ofNat b :: ·)
      else if b < 0xc2 || 0xf4 < b then .error ⟨position, [b], .invalidStart⟩
      else
        match rest with
        | [] => .error ⟨position, [b], .unexpectedEnd⟩
        | c :: rest =>
            if !isSecond b c then .error ⟨position, [b], .invalidContinuation⟩
            else if following b = 1 then
              (decodeAt (position + 2) rest).map
                (Char.ofNat ((b - 0xc0) * 0x40 + (c - 0x80)) :: ·)
            else
              match rest with
              | [] => .error ⟨position, [b, c], .unexpectedEnd⟩
              | d :: rest =>
                  if !isContinuation d then .error ⟨position, [b, c], .invalidContinuation⟩
                  else if following b = 2 then
                    (decodeAt (position + 3) rest).map
                      (Char.ofNat ((b - 0xe0) * 0x1000 + (c - 0x80) * 0x40 + (d - 0x80)) :: ·)
                  else
                    match rest with
                    | [] => .error ⟨position, [b, c, d], .unexpectedEnd⟩
                    | e :: rest =>
                        if !isContinuation e then
                          .error ⟨position, [b, c, d], .invalidContinuation⟩
                        else
                          (decodeAt (position + 4) rest).map
                            (Char.ofNat
                              ((b - 0xf0) * 0x40000 + (c - 0x80) * 0x1000 + (d - 0x80) * 0x40 +
                                (e - 0x80)) :: ·)

def decode (bytes : List Nat) : Except Fault (List Char) :=
  decodeAt 0 bytes

end Glossary.Text.Utf8
