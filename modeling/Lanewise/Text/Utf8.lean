/-!
# Reading bytes as text

Bytes that need not be UTF-8 are shown with one replacement character for each
maximal run of bytes that starts a character but does not finish one.
-/

namespace Lanewise.Text

/-- Stands for bytes that are no character. -/
def replacement : Char := Char.ofNat 0xfffd

/-- Whether a byte may follow the first byte of a character. -/
def isContinuation (b : UInt8) : Bool :=
  0x80 ≤ b && b ≤ 0xbf

/-- Length of the character a first byte announces and the range its second
byte must lie in. Overlong forms, surrogates and values past the last code
point are excluded by that range. -/
def sequence? (b : UInt8) : Option (Nat × UInt8 × UInt8) :=
  if 0xc2 ≤ b && b ≤ 0xdf then some (2, 0x80, 0xbf)
  else if b == 0xe0 then some (3, 0xa0, 0xbf)
  else if b == 0xed then some (3, 0x80, 0x9f)
  else if 0xe1 ≤ b && b ≤ 0xef then some (3, 0x80, 0xbf)
  else if b == 0xf0 then some (4, 0x90, 0xbf)
  else if 0xf1 ≤ b && b ≤ 0xf3 then some (4, 0x80, 0xbf)
  else if b == 0xf4 then some (4, 0x80, 0x8f)
  else none

/-- Six payload bits of a continuation byte. -/
def payload (b : UInt8) : Nat :=
  b.toNat % 64

/-- The first character of `b :: rest` and how many bytes of `rest` it takes. -/
def firstChar (b : UInt8) (rest : List UInt8) : Char × Nat :=
  if b < 0x80 then (Char.ofNat b.toNat, 0)
  else
    match sequence? b, rest with
    | some (2, lo, hi), b1 :: _ =>
      if lo ≤ b1 && b1 ≤ hi then (Char.ofNat (b.toNat % 32 * 64 + payload b1), 1)
      else (replacement, 0)
    | some (3, lo, hi), b1 :: more =>
      if lo ≤ b1 && b1 ≤ hi then
        match more with
        | b2 :: _ =>
          if isContinuation b2 then
            (Char.ofNat ((b.toNat % 16 * 64 + payload b1) * 64 + payload b2), 2)
          else (replacement, 1)
        | [] => (replacement, 1)
      else (replacement, 0)
    | some (4, lo, hi), b1 :: more =>
      if lo ≤ b1 && b1 ≤ hi then
        match more with
        | b2 :: more =>
          if isContinuation b2 then
            match more with
            | b3 :: _ =>
              if isContinuation b3 then
                (Char.ofNat (((b.toNat % 8 * 64 + payload b1) * 64 + payload b2) * 64
                  + payload b3), 3)
              else (replacement, 2)
            | [] => (replacement, 2)
          else (replacement, 1)
        | [] => (replacement, 1)
      else (replacement, 0)
    | _, _ => (replacement, 0)

/-- The characters of a byte string, with replacements. -/
def lossyChars : List UInt8 → List Char
  | [] => []
  | b :: rest =>
    (firstChar b rest).1 :: lossyChars (rest.drop (firstChar b rest).2)
termination_by bytes => bytes.length
decreasing_by simp only [List.length_drop, List.length_cons]; omega

/-- The text of a byte string, with replacements. -/
def lossy (bytes : List UInt8) : String :=
  String.ofList (lossyChars bytes)

end Lanewise.Text
