import SrtVpn.BigEndian
import SrtVpn.Utf8

namespace SrtVpn.Text

open BigEndian

def charsLoop : Nat → Bytes → List Bytes
  | 0, _ => []
  | _ + 1, [] => []
  | fuel + 1, b :: rest =>
      let n := Utf8.width b - 1
      (b :: rest.take n) :: charsLoop fuel (rest.drop n)

def chars (text : Bytes) : List Bytes := charsLoop text.length text

def isWhitespace : Bytes → Bool
  | [b] => (0x09 ≤ b && b ≤ 0x0D) || b == 0x20
  | [b₀, b₁] => b₀ == 0xC2 && (b₁ == 0x85 || b₁ == 0xA0)
  | [b₀, b₁, b₂] =>
      [b₀, b₁, b₂] == [0xE1, 0x9A, 0x80] ||
      (b₀ == 0xE2 && b₁ == 0x80 && (b₂ ≤ 0x8A || b₂ == 0xA8 || b₂ == 0xA9 || b₂ == 0xAF)) ||
      [b₀, b₁, b₂] == [0xE2, 0x81, 0x9F] || [b₀, b₁, b₂] == [0xE3, 0x80, 0x80]
  | _ => false

/-- Collect characters into words; `word` is the one being read. -/
def wordsLoop : List Bytes → Bytes → List Bytes
  | [], word => if word = [] then [] else [word]
  | c :: cs, word =>
      if isWhitespace c then if word = [] then wordsLoop cs [] else word :: wordsLoop cs []
      else wordsLoop cs (word ++ c)

def splitWhitespace (text : Bytes) : List Bytes := wordsLoop (chars text) []

def trim (text : Bytes) : Bytes :=
  (((chars text).dropWhile isWhitespace).reverse.dropWhile isWhitespace).reverse.flatten

def position (pat : Bytes) : Bytes → Option Nat
  | [] => if pat = [] then some 0 else none
  | b :: rest => if pat.isPrefixOf (b :: rest) then some 0 else (position pat rest).map (· + 1)

def splitOnce (sep : UInt8) (text : Bytes) : Option (Bytes × Bytes) :=
  if sep ∈ text then some (text.takeWhile (· ≠ sep), (text.dropWhile (· ≠ sep)).tail) else none

def rsplitOnce (sep : UInt8) (text : Bytes) : Option (Bytes × Bytes) :=
  (splitOnce sep text.reverse).map fun (after, before) => (before.reverse, after.reverse)

def linesLoop : Bytes → Bytes → List Bytes
  | [], line => if line = [] then [] else [line]
  | b :: rest, line =>
      if b = 0x0A then
        (if line.getLast? = some 0x0D then line.dropLast else line) :: linesLoop rest []
      else linesLoop rest (line ++ [b])

def lines (text : Bytes) : List Bytes := linesLoop text []

def lower (b : UInt8) : UInt8 := if 0x41 ≤ b ∧ b ≤ 0x5A then b + 0x20 else b

def isDigit (b : UInt8) : Bool := 0x30 ≤ b && b ≤ 0x39

def number (digits : Bytes) : Nat := digits.foldl (fun n b => n * 10 + (b - 0x30).toNat) 0

def stripPrefix (pat text : Bytes) : Option Bytes :=
  if pat.isPrefixOf text then some (text.drop pat.length) else none

def trimStartMatches (b : UInt8) (text : Bytes) : Bytes := text.dropWhile (· = b)

def trimEndMatches (b : UInt8) (text : Bytes) : Bytes := (text.reverse.dropWhile (· = b)).reverse

def ascii (s : String) : Bytes := s.toList.map fun c => UInt8.ofNat c.toNat

def decimal (n : Nat) : Bytes := (Nat.toDigits 10 n).map fun c => UInt8.ofNat c.toNat

def hex (n : Nat) : Bytes := (Nat.toDigits 16 n).map fun c => UInt8.ofNat c.toNat

def ipv4ToString (ip : Bytes) : Bytes := [0x2E].intercalate (ip.map fun b => decimal b.toNat)

def segments : Bytes → List Nat
  | a :: b :: rest => ofBytes [a, b] :: segments rest
  | _ => []

/-- The first longest run of zero groups: its start and its length. -/
def zeroRun : List Nat → Nat → Nat × Nat → Nat × Nat → Nat × Nat
  | [], _, _, longest => longest
  | g :: gs, i, current, longest =>
      if g = 0 then
        let current := (if current.2 = 0 then i else current.1, current.2 + 1)
        zeroRun gs (i + 1) current (if longest.2 < current.2 then current else longest)
      else zeroRun gs (i + 1) (0, 0) longest

def groups (gs : List Nat) : Bytes := [0x3A].intercalate (gs.map hex)

def ipv6ToString (ip : Bytes) : Bytes :=
  if ip.take 12 = [0, 0, 0, 0, 0, 0, 0, 0, 0, 0, 0xFF, 0xFF] then
    ascii "::ffff:" ++ ipv4ToString (ip.drop 12)
  else
    let gs := segments ip
    let (start, len) := zeroRun gs 0 (0, 0) (0, 0)
    if 1 < len then groups (gs.take start) ++ ascii "::" ++ groups (gs.drop (start + len))
    else groups gs

example : ipv6ToString [0x20, 1, 0xD, 0xB8, 0, 0, 0, 0, 0, 0, 0, 0, 0, 0, 0, 1] =
    ascii "2001:db8::1" := by
  decide +kernel

end SrtVpn.Text
