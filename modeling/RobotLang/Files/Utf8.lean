namespace RobotLang.Files

inductive DecodeReason
  | startByte
  | continuation
  | unfinished
  deriving DecidableEq, Repr

/-- The offending bytes: the first of them, its offset, and how many there are. -/
structure DecodeFault where
  byte : UInt8
  offset : Nat
  count : Nat
  reason : DecodeReason
  deriving DecidableEq, Repr

def DecodeReason.text : DecodeReason → String
  | startByte => "invalid start byte"
  | continuation => "invalid continuation byte"
  | unfinished => "unexpected end of data"

def hexByte (b : UInt8) : String :=
  let digit := fun n : Nat => if n < 10 then Char.ofNat (48 + n) else Char.ofNat (87 + n)
  String.ofList ['0', 'x', digit (b.toNat / 16), digit (b.toNat % 16)]

def DecodeFault.message (f : DecodeFault) : String :=
  let what := if f.count = 1 then s!"byte {hexByte f.byte} in position {f.offset}"
    else s!"bytes in position {f.offset}-{f.offset + f.count - 1}"
  s!"'utf-8' codec can't decode {what}: {f.reason.text}"

def isContinuation (b : UInt8) : Bool := 0x80 ≤ b && b < 0xc0

def secondRange (lead : UInt8) : UInt8 × UInt8 :=
  if lead = 0xe0 then (0xa0, 0xbf)
  else if lead = 0xed then (0x80, 0x9f)
  else if lead = 0xf0 then (0x90, 0xbf)
  else if lead = 0xf4 then (0x80, 0x8f)
  else (0x80, 0xbf)

def followers (lead : UInt8) : Option Nat :=
  if 0xc2 ≤ lead && lead < 0xe0 then some 1
  else if 0xe0 ≤ lead && lead < 0xf0 then some 2
  else if 0xf0 ≤ lead && lead < 0xf5 then some 3
  else none

def leadBits (lead : UInt8) : Nat :=
  if lead < 0xe0 then lead.toNat % 32 else if lead < 0xf0 then lead.toNat % 16 else lead.toNat % 8

def goodFollowers (lead : UInt8) (expected : Nat) : List UInt8 → Nat
  | [] => 0
  | second :: rest =>
    let range := secondRange lead
    if expected = 0 ∨ second < range.1 ∨ range.2 < second then 0
    else 1 + ((rest.take (expected - 1)).takeWhile isContinuation).length

/-- The characters of at most `limit` sequences, from `offset` on. -/
def decodeFrom : Nat → Nat → List UInt8 → Except DecodeFault (List Char)
  | 0, _, _ => .ok []
  | _, _, [] => .ok []
  | limit + 1, offset, b :: bs =>
    if b < 0x80 then (decodeFrom limit (offset + 1) bs).map (Char.ofNat b.toNat :: ·)
    else
      match followers b with
      | none => .error ⟨b, offset, 1, .startByte⟩
      | some n =>
        let good := goodFollowers b n bs
        if good = n then
          let code := (bs.take n).foldl (fun code c => code * 64 + c.toNat % 64) (leadBits b)
          (decodeFrom limit (offset + 1 + n) (bs.drop n)).map (Char.ofNat code :: ·)
        else
          .error ⟨b, offset, 1 + good, if bs.length = good then .unfinished else .continuation⟩

def decode (bytes : List UInt8) : Except DecodeFault (List Char) :=
  decodeFrom bytes.length 0 bytes

def unifyLines : List Char → List Char
  | [] => []
  | '\r' :: '\n' :: cs => '\n' :: unifyLines cs
  | '\r' :: cs => '\n' :: unifyLines cs
  | c :: cs => c :: unifyLines cs

end RobotLang.Files
