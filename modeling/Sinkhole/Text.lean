namespace Sinkhole.Text

/-- The text with its ASCII capitals lowered and every other character kept. -/
def lowercase (s : String) : String :=
  String.ofList (s.toList.map Char.toLower)

/-- Equality up to the case of ASCII letters. -/
def sameLetters (a b : String) : Bool :=
  lowercase a == lowercase b

/-- One byte stirred into the running hash. -/
def stir (h : UInt32) (b : UInt8) : UInt32 :=
  let h := h + b.toUInt32
  let h := h + (h <<< 10)
  h ^^^ (h >>> 6)

/-- The last three mixing steps, after every byte has been stirred in. -/
def settle (h : UInt32) : UInt32 :=
  let h := h + (h <<< 3)
  let h := h ^^^ (h >>> 11)
  h + (h <<< 15)

def hash (s : String) : UInt32 :=
  settle (s.toUTF8.data.foldl stir 0)

end Sinkhole.Text

namespace Sinkhole

/-- A text in the pool with the offset of its first byte. -/
structure PooledText where
  offset : Nat := 0
  text : String := ""
  deriving DecidableEq, Repr, Inhabited

def firstByte? (s : String) : Option UInt8 :=
  s.toUTF8.data[0]?

/-- Whether the text is `s`. First bytes that differ settle it without a look at the rest. -/
def PooledText.spells (t : PooledText) (s : String) : Bool :=
  firstByte? t.text == firstByte? s && t.text == s

theorem PooledText.spells_iff {t : PooledText} {s : String} : t.spells s ↔ t.text = s := by
  simp +contextual [spells]

/-- The arena, as the texts placed in it, the newest first. -/
structure TextPool where
  limit : Nat
  used : Nat := 1
  placed : List PooledText := []

namespace TextPool

/-- Offsets are 32-bit words, whatever the budget. -/
def maxOffset : Nat := 4294967295

/-- The part before the first NUL, which is all that the arena can hold of a text. -/
def beforeNul (s : String) : String :=
  String.ofList (s.toList.takeWhile (· ≠ '\x00'))

/-- What a refused text would have needed, and the budget that it would have passed. -/
structure Exhausted where
  used : Nat
  needed : Nat
  limit : Nat
  deriving DecidableEq, Repr

/-- Places the part of `s` before its first NUL. The empty text is there already and costs nothing;
any other costs its bytes and the closing one. The allocation of these is assumed to succeed. -/
def intern (p : TextPool) (s : String) : Except Exhausted (PooledText × TextPool) :=
  let t := beforeNul s
  if t = "" then
    .ok ({}, p)
  else
    let needed := t.utf8ByteSize + 1
    if p.used + needed > p.limit ∨ p.used + needed > maxOffset then
      .error ⟨p.used, needed, p.limit⟩
    else
      let placed : PooledText := ⟨p.used, t⟩
      .ok (placed, { p with used := p.used + needed, placed := placed :: p.placed })

/-- What is left after the first `n` bytes, if they end between two characters. -/
def dropBytes : Nat → List Char → Option (List Char)
  | 0, cs => some cs
  | _ + 1, [] => none
  | n + 1, c :: cs => if c.utf8Size ≤ n + 1 then dropBytes (n + 1 - c.utf8Size) cs else none

/-- The text that runs from `offset` to the next NUL. It is empty past the end of the arena, and
where `offset` falls inside a character. -/
def textAt (p : TextPool) (offset : Nat) : String :=
  if p.used ≤ offset then
    ""
  else
    match p.placed.find? (·.offset ≤ offset) with
    | none => ""
    | some t => String.ofList ((dropBytes (offset - t.offset) t.text.toList).getD [])

end TextPool

end Sinkhole
