/-!
# UTF-8

Decoding bytes to characters, with the place and the extent of the first fault. A fault is either a
sequence that no continuation can mend, whose length is the longest start of it that some character
has (one byte at least), or a sequence that the end of the bytes cuts short.
-/

namespace ArtifactResolver

/-- The content of a file or of an entry. -/
abbrev Bytes := List UInt8

namespace Text

/-- The first fault of bytes that are not UTF-8. -/
structure Utf8Error where
  /-- How many bytes before the fault are valid. -/
  index : Nat
  /-- The length of the invalid sequence, none if the bytes end within a sequence. -/
  length? : Option Nat
deriving DecidableEq, Repr

/-- The wording of a fault. -/
def Utf8Error.message (e : Utf8Error) : String :=
  match e.length? with
  | some length => s!"invalid utf-8 sequence of {length} bytes from index {e.index}"
  | none => s!"incomplete utf-8 byte sequence from index {e.index}"

/-- The bytes of a text. -/
def encode (text : String) : Bytes := text.toList.flatMap String.utf8EncodeChar

/-- A byte that continues a sequence. -/
def isContinuation (b : UInt8) : Bool := 0x80 ≤ b && b ≤ 0xBF

/-- Whether a sequence of three bytes can start with these two. -/
def startsThree (a b : UInt8) : Bool :=
  (a == 0xE0 && 0xA0 ≤ b && b ≤ 0xBF) || (0xE1 ≤ a && a ≤ 0xEC && isContinuation b) ||
    (a == 0xED && 0x80 ≤ b && b ≤ 0x9F) || (0xEE ≤ a && a ≤ 0xEF && isContinuation b)

/-- Whether a sequence of four bytes can start with these two. -/
def startsFour (a b : UInt8) : Bool :=
  (a == 0xF0 && 0x90 ≤ b && b ≤ 0xBF) || (0xF1 ≤ a && a ≤ 0xF3 && isContinuation b) ||
    (a == 0xF4 && 0x80 ≤ b && b ≤ 0x8F)

/-- The character with the payload bits of a lead byte and of the continuation bytes behind it. -/
def charOfBits (lead : Nat) (tail : List UInt8) : Char :=
  Char.ofNat (tail.foldl (fun bits b => bits * 64 + b.toNat % 64) lead)

/-- Decodes bytes of which the first stands at the given index. -/
def decodeFrom (index : Nat) : Bytes → Except Utf8Error (List Char)
  | [] => .ok []
  | a :: rest =>
    if a < 0x80 then
      (decodeFrom (index + 1) rest).map (Char.ofNat a.toNat :: ·)
    else if 0xC2 ≤ a && a ≤ 0xDF then
      match rest with
      | [] => .error ⟨index, none⟩
      | b :: rest =>
        if !isContinuation b then .error ⟨index, some 1⟩
        else (decodeFrom (index + 2) rest).map (charOfBits (a.toNat % 32) [b] :: ·)
    else if 0xE0 ≤ a && a ≤ 0xEF then
      match rest with
      | [] => .error ⟨index, none⟩
      | b :: rest =>
        if !startsThree a b then .error ⟨index, some 1⟩
        else match rest with
        | [] => .error ⟨index, none⟩
        | c :: rest =>
          if !isContinuation c then .error ⟨index, some 2⟩
          else (decodeFrom (index + 3) rest).map (charOfBits (a.toNat % 16) [b, c] :: ·)
    else if 0xF0 ≤ a && a ≤ 0xF4 then
      match rest with
      | [] => .error ⟨index, none⟩
      | b :: rest =>
        if !startsFour a b then .error ⟨index, some 1⟩
        else match rest with
        | [] => .error ⟨index, none⟩
        | c :: rest =>
          if !isContinuation c then .error ⟨index, some 2⟩
          else match rest with
          | [] => .error ⟨index, none⟩
          | d :: rest =>
            if !isContinuation d then .error ⟨index, some 3⟩
            else (decodeFrom (index + 4) rest).map (charOfBits (a.toNat % 8) [b, c, d] :: ·)
    else .error ⟨index, some 1⟩

/-- The text of the bytes, or their first fault. -/
def decode (bytes : Bytes) : Except Utf8Error String :=
  (decodeFrom 0 bytes).map String.ofList

end Text
end ArtifactResolver
