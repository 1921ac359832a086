import AssetAudit.Text.Base64

/-!
# Variable-length numbers

A segment of a mapping is a row of signed numbers. Each is written in base 64 digits, the low five
bits first, a digit from 32 on saying that the number goes on; the lowest bit of the number is its
sign. A character that is no digit stands for 63 in each of its bytes. Numbers have 64 bits.
-/
namespace AssetAudit.SourceMap

/-- The values of the bytes of a text. -/
def digits (text : List Char) : List Nat :=
  text.flatMap fun c => List.replicate c.utf8Size ((Text.Base64.digit? c).getD 63)

/-- The number whose lowest bit is its sign. -/
def signed (n : Int64) : Int64 := if n &&& 1 != 0 then -(n >>> 1) else n >>> 1

/-- The numbers of a segment, where `acc` is the one under way and `shift` the place of its next
digit. A number that does not end, or has a digit beyond 64 bits, is refused. -/
def numbersFrom? (acc : Int64) (shift : Nat) : List Nat → Option (List Int)
  | [] => if acc == 0 && shift == 0 then some [] else none
  | d :: rest =>
    if shift < 64 then
      let acc := acc + (Int64.ofNat (d % 32) <<< Int64.ofNat shift)
      if d < 32 then (numbersFrom? 0 0 rest).map ((signed acc).toInt :: ·)
      else numbersFrom? acc (shift + 5) rest
    else none

/-- The numbers of a segment, at least one. -/
def numbers? (segment : List Char) : Option (List Int) :=
  (numbersFrom? 0 0 (digits segment)).filter (!·.isEmpty)

end AssetAudit.SourceMap
