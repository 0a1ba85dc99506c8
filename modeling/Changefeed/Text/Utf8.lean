/-!
# Bytes as text

Characters are written as one to four bytes, and read back from them.  Bytes need not be the bytes
of characters: where some begin like a character and do not go on like one, those that were right
so far count as one unreadable character, and reading goes on behind them.
-/

namespace Changefeed
namespace Text

/-- Characters read from bytes; `none` stands for bytes that are no character. -/
abbrev Raw := List (Option Char)

/-! ## Writing -/

/-- A byte that does not begin a character, with six bits of it. -/
def tailByte (n : Nat) : UInt8 := UInt8.ofNat (0x80 + n % 64)

/-- The bytes of a character. -/
def encodeChar (c : Char) : List UInt8 :=
  let n := c.toNat
  if n < 0x80 then [UInt8.ofNat n]
  else if n < 0x800 then [UInt8.ofNat (0xC0 + n / 64), tailByte n]
  else if n < 0x10000 then [UInt8.ofNat (0xE0 + n / 4096), tailByte (n / 64), tailByte n]
  else [UInt8.ofNat (0xF0 + n / 262144), tailByte (n / 4096), tailByte (n / 64), tailByte n]

/-- The bytes of characters. -/
def encode (s : List Char) : List UInt8 := s.flatMap encodeChar

/-! ## Reading -/

/-- What the first byte of a character says of it. -/
structure Lead where
  /-- The highest bits of the character. -/
  bits : Nat
  /-- The number of bytes that follow. -/
  more : Nat
  /-- The least byte that may follow next. -/
  low : Nat := 0x80
  /-- The greatest byte that may follow next. -/
  high : Nat := 0xBF

/-- Reads the first byte of a character.  The bounds of the next one leave out characters that fewer
bytes would do for, surrogates, and numbers beyond the last character. -/
def lead (b : Nat) : Option Lead :=
  if b < 0x80 then some { bits := b, more := 0 }
  else if b < 0xC2 then none
  else if b < 0xE0 then some { bits := b - 0xC0, more := 1 }
  else if b = 0xE0 then some { bits := 0, more := 2, low := 0xA0 }
  else if b = 0xED then some { bits := 0xD, more := 2, high := 0x9F }
  else if b < 0xF0 then some { bits := b - 0xE0, more := 2 }
  else if b = 0xF0 then some { bits := 0, more := 3, low := 0x90 }
  else if b < 0xF4 then some { bits := b - 0xF0, more := 3 }
  else if b = 0xF4 then some { bits := 4, more := 3, high := 0x8F }
  else none

/-- Reads the bytes that follow, of which the next one has bounds: the number of the character, and
what is left. -/
def follow (value low high : Nat) : Nat → List UInt8 → Option Nat × List UInt8
  | 0, bs => (some value, bs)
  | _ + 1, [] => (none, [])
  | n + 1, b :: bs =>
    if low ≤ b.toNat ∧ b.toNat ≤ high then follow (value * 64 + (b.toNat - 0x80)) 0x80 0xBF n bs
    else (none, b :: bs)

/-- Reading what follows leaves no more than there was. -/
theorem length_follow (value low high n : Nat) (bs : List UInt8) :
    (follow value low high n bs).2.length ≤ bs.length := by
  fun_induction follow value low high n bs with
  | case1 => exact Nat.le_refl _
  | case2 => exact Nat.le_refl _
  | case3 _ _ _ _ _ _ _ ih => exact Nat.le_succ_of_le ih
  | case4 => exact Nat.le_refl _

/-- Reads the character of a first byte and those that follow. -/
def Lead.read (l : Lead) (bs : List UInt8) : Option Char × List UInt8 :=
  let (n, rest) := follow l.bits l.low l.high l.more bs
  (n.map Char.ofNat, rest)

/-- Reads bytes as characters. -/
def decode : List UInt8 → Raw
  | [] => []
  | b :: bs =>
    match lead b.toNat with
    | none => none :: decode bs
    | some l => (l.read bs).1 :: decode (l.read bs).2
termination_by bs => bs.length
decreasing_by
  · simp
  · exact Nat.lt_succ_of_le (length_follow ..)

/-- The characters, with a replacement for each unreadable one. -/
def Raw.replaced (s : Raw) : List Char := s.map fun c => c.getD '\uFFFD'

/-! ## Reading what was written -/

/-- A byte's number, when it is one. -/
theorem toNat_byte {n : Nat} (h : n < 256) : (UInt8.ofNat n).toNat = n := by
  simpa using Nat.mod_eq_of_lt h

/-- A byte that follows gives its six bits. -/
theorem follow_tailByte {value low high n m : Nat} {bs : List UInt8}
    (hl : low ≤ 0x80 + m % 64) (hh : 0x80 + m % 64 ≤ high) :
    follow value low high (n + 1) (tailByte m :: bs)
      = follow (value * 64 + m % 64) 0x80 0xBF n bs := by
  have hb : (tailByte m).toNat = 0x80 + m % 64 := toNat_byte (by omega)
  simp [follow, hb, hl, hh]

/-- A character reads back from its bytes. -/
theorem decode_encodeChar (c : Char) (bs : List UInt8) :
    decode (encodeChar c ++ bs) = some c :: decode bs := by
  have hc : Char.ofNat c.toNat = c := Char.ofNat_toNat c
  have hv : c.toNat < 0xD800 ∨ 0xDFFF < c.toNat ∧ c.toNat < 0x110000 := c.valid
  unfold encodeChar
  generalize c.toNat = n at hc hv
  dsimp only
  split
  · next h =>
    rw [List.singleton_append, decode, toNat_byte (by omega)]
    simp [lead, h, Lead.read, follow, hc]
  · split
    · next h0 h =>
      have hl : lead (0xC0 + n / 64) = some { bits := n / 64, more := 1 } := by
        unfold lead
        rw [if_neg (by omega), if_neg (by omega), if_pos (by omega)]
        simp
      rw [List.cons_append, decode, toNat_byte (by omega), hl]
      simp only [Lead.read, List.singleton_append]
      rw [follow_tailByte (by omega) (by omega), show n / 64 * 64 + n % 64 = n by omega]
      simp [follow, hc]
    · split
      · next h0 h1 h =>
        have hl : ∃ l, lead (0xE0 + n / 4096) = some l ∧ l.bits = n / 4096 ∧ l.more = 2
            ∧ l.low ≤ 0x80 + n / 64 % 64 ∧ 0x80 + n / 64 % 64 ≤ l.high := by
          unfold lead
          rw [if_neg (by omega), if_neg (by omega), if_neg (by omega)]
          split
          · exact ⟨_, rfl, by dsimp only; omega, rfl, by dsimp only; omega, by dsimp only; omega⟩
          · split
            · exact ⟨_, rfl, by dsimp only; omega, rfl, by dsimp only; omega, by dsimp only; omega⟩
            · rw [if_pos (by omega)]
              exact ⟨_, rfl, by dsimp only; omega, rfl, by dsimp only; omega, by dsimp only; omega⟩
        obtain ⟨l, hl, hbits, hmore, hlow, hhigh⟩ := hl
        rw [List.cons_append, decode, toNat_byte (by omega), hl]
        simp only [Lead.read, hbits, hmore, List.cons_append, List.nil_append]
        rw [follow_tailByte hlow hhigh, follow_tailByte (by omega) (by omega),
          show (n / 4096 * 64 + n / 64 % 64) * 64 + n % 64 = n by omega]
        simp [follow, hc]
      · next h0 h1 h2 =>
        have hl : ∃ l, lead (0xF0 + n / 262144) = some l ∧ l.bits = n / 262144 ∧ l.more = 3
            ∧ l.low ≤ 0x80 + n / 4096 % 64 ∧ 0x80 + n / 4096 % 64 ≤ l.high := by
          unfold lead
          rw [if_neg (by omega), if_neg (by omega), if_neg (by omega), if_neg (by omega),
            if_neg (by omega), if_neg (by omega)]
          split
          · exact ⟨_, rfl, by dsimp only; omega, rfl, by dsimp only; omega, by dsimp only; omega⟩
          · split
            · exact ⟨_, rfl, by dsimp only; omega, rfl, by dsimp only; omega, by dsimp only; omega⟩
            · rw [if_pos (by omega)]
              exact ⟨_, rfl, by dsimp only; omega, rfl, by dsimp only; omega, by dsimp only; omega⟩
        obtain ⟨l, hl, hbits, hmore, hlow, hhigh⟩ := hl
        rw [List.cons_append, decode, toNat_byte (by omega), hl]
        simp only [Lead.read, hbits, hmore, List.cons_append, List.nil_append]
        rw [follow_tailByte hlow hhigh, follow_tailByte (by omega) (by omega),
          follow_tailByte (by omega) (by omega),
          show ((n / 262144 * 64 + n / 4096 % 64) * 64 + n / 64 % 64) * 64 + n % 64 = n by omega]
        simp [follow, hc]

/-- Characters read back from their bytes. -/
theorem decode_encode (s : List Char) : decode (encode s) = s.map some := by
  induction s with
  | nil => simp [encode, decode]
  | cons c rest ih =>
    simp only [encode, List.flatMap_cons, List.map_cons] at *
    rw [decode_encodeChar, ih]

end Text
end Changefeed
