import Rulebook.Text.Units

/-! Places in the UTF-8 form of a text. A step goes a number of bytes, so it may end inside a
character; the bytes left of that character no longer decode. A byte order mark in front of what
is decoded is dropped. -/

namespace Rulebook.Text

def orderMark : Char := '\uFEFF'

def dropMark : List Char → List Char
  | c :: s => if c = orderMark then s else c :: s
  | [] => []

/-- A place before which `offset` bytes lie. `torn` are the bytes left of a character that the
place is inside of, `rest` the characters behind it. -/
structure Cursor where
  offset : Nat
  torn : List UInt8
  rest : List Char
  deriving DecidableEq, Repr

namespace Cursor

def start (s : List Char) : Cursor := ⟨0, [], s⟩

def byteCount : List Char → Nat
  | [] => 0
  | c :: s => c.utf8Size + byteCount s

@[simp] theorem byteCount_nil : byteCount [] = 0 := rfl

@[simp] theorem byteCount_cons (c : Char) (s : List Char) :
    byteCount (c :: s) = c.utf8Size + byteCount s := rfl

@[simp] theorem byteCount_append (s t : List Char) :
    byteCount (s ++ t) = byteCount s + byteCount t := by
  induction s with
  | nil => simp
  | cons c s ih => simp [ih, Nat.add_assoc]

def remaining (c : Cursor) : Nat := c.torn.length + byteCount c.rest

/-- What is decoded from the place on. Each torn byte decodes as U+FFFD. -/
def view (c : Cursor) : List Char := dropMark (c.torn.map (fun _ => replacement) ++ c.rest)

def skip : Nat → List UInt8 → List Char → List UInt8 × List Char
  | 0, torn, rest => (torn, rest)
  | n + 1, _ :: torn, rest => skip n torn rest
  | _ + 1, [], [] => ([], [])
  | n + 1, [], c :: rest =>
    if c.utf8Size ≤ n + 1 then skip (n + 1 - c.utf8Size) [] rest
    else ((String.utf8EncodeChar c).drop (n + 1), rest)
termination_by _ torn rest => (rest.length, torn.length)

def advance (c : Cursor) (n : Nat) : Cursor :=
  let r := skip n c.torn c.rest
  ⟨c.offset + n, r.1, r.2⟩

/-- Decodes `n` bytes, if there are so many. A character whose bytes are only partly among them
decodes as one U+FFFD. -/
def decode? : Nat → List UInt8 → List Char → Option (List Char)
  | 0, _, _ => some []
  | n + 1, _ :: torn, rest => (decode? n torn rest).map (replacement :: ·)
  | _ + 1, [], [] => none
  | n + 1, [], c :: rest =>
    if c.utf8Size ≤ n + 1 then (decode? (n + 1 - c.utf8Size) [] rest).map (c :: ·)
    else some [replacement]
termination_by _ torn rest => (rest.length, torn.length)

def peek? (c : Cursor) (n : Nat) : Option (List Char) := (decode? n c.torn c.rest).map dropMark

/-- The number of bytes of the next character; a torn byte stands alone. -/
def width? (c : Cursor) : Option Nat :=
  match c.torn, c.rest with
  | _ :: _, _ => some 1
  | [], d :: _ => some d.utf8Size
  | [], [] => none

def nextByte? (c : Cursor) : Option UInt8 :=
  match c.torn, c.rest with
  | b :: _, _ => some b
  | [], d :: _ => (String.utf8EncodeChar d).head?
  | [], [] => none

theorem skip_append (s t : List Char) : skip (byteCount s) [] (s ++ t) = ([], t) := by
  induction s with
  | nil => cases t <;> simp [skip]
  | cons c s ih =>
    have h : 0 < c.utf8Size := c.utf8Size_pos
    obtain ⟨k, hk⟩ : ∃ k, c.utf8Size + byteCount s = k + 1 :=
      ⟨c.utf8Size + byteCount s - 1, by omega⟩
    rw [byteCount_cons, List.cons_append, hk, skip, if_pos (by omega)]
    rw [show k + 1 - c.utf8Size = byteCount s by omega, ih]

theorem advance_append (n : Nat) (s t : List Char) :
    (⟨n, [], s ++ t⟩ : Cursor).advance (byteCount s) = ⟨n + byteCount s, [], t⟩ := by
  simp [advance, skip_append]

end Cursor

end Rulebook.Text
