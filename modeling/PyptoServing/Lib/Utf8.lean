import PyptoServing.Lib.Transducer

/-!
# Lossy UTF-8

A decoder that never fails: a sequence that cannot go on is written as one U+FFFD, and the byte
that it cannot go on with is read afresh. A byte that continues no character keeps the decoder
between characters; any other byte starts afresh from every state.
-/
namespace PyptoServing.Lib.Utf8

/-- U+FFFD. -/
def replacement : Char := '\uFFFD'

/-- Between characters, or behind the first bytes of one: how many bytes follow the next one,
the bits so far, and the bounds of the next six bits. -/
inductive State
  | start
  | pending (more bits lower upper : Nat)
  deriving DecidableEq

/-- A byte of the form `10xxxxxx`. -/
def IsContinuation (b : UInt8) : Prop := 0x80 ≤ b.toNat ∧ b.toNat < 0xC0

instance (b : UInt8) : Decidable (IsContinuation b) := inferInstanceAs (Decidable (_ ∧ _))

/-- A byte between characters. The bounds rule out overlong forms, surrogates and values above
U+10FFFF. -/
def lead (b : UInt8) : State × List Char :=
  let n := b.toNat
  if n < 0x80 then (.start, [Char.ofNat n])
  else if 0xC2 ≤ n ∧ n < 0xE0 then (.pending 0 (n - 0xC0) 0 0x3F, [])
  else if 0xE0 ≤ n ∧ n < 0xF0 then
    (.pending 1 (n - 0xE0) (if n = 0xE0 then 0x20 else 0) (if n = 0xED then 0x1F else 0x3F), [])
  else if 0xF0 ≤ n ∧ n < 0xF5 then
    (.pending 2 (n - 0xF0) (if n = 0xF0 then 0x10 else 0) (if n = 0xF4 then 0x0F else 0x3F), [])
  else (.start, [replacement])

/-- Behind a byte that continues a character. -/
def advance : Nat → Nat → State × List Char
  | 0, bits => (.start, [Char.ofNat bits])
  | more + 1, bits => (.pending more bits 0 0x3F, [])

def next : State → UInt8 → State × List Char
  | .start, b => lead b
  | .pending more bits lower upper, b =>
    let low := b.toNat - 0x80
    if IsContinuation b ∧ lower ≤ low ∧ low ≤ upper then advance more (bits * 64 + low)
    else ((lead b).1, replacement :: (lead b).2)

def flush : State → List Char
  | .start => []
  | .pending .. => [replacement]

def decoder : Transducer State UInt8 Char where
  start := .start
  step s b := (next s b).1
  output s b := (next s b).2
  flush := flush

def decodeLossy (bytes : List UInt8) : String := String.ofList (decoder.run bytes)

@[simp] theorem toList_decodeLossy (bytes : List UInt8) :
    (decodeLossy bytes).toList = decoder.run bytes := String.toList_ofList

theorem next_of_not_continuation {b : UInt8} (hb : ¬ IsContinuation b) (s : State) :
    (next s b).1 = (lead b).1 := by
  cases s with
  | start => rfl
  | pending more bits lower upper =>
    rw [next, if_neg fun h => hb h.1]

theorem lead_of_continuation {b : UInt8} (hb : IsContinuation b) :
    lead b = (.start, [replacement]) := by
  obtain ⟨hlow, hhigh⟩ := hb
  rw [lead, if_neg (by omega), if_neg (by omega), if_neg (by omega), if_neg (by omega)]

theorem decoder_resets : decoder.Resets where
  letter := by
    intro b
    by_cases hb : IsContinuation b
    · right
      show (lead b).1 = .start
      rw [lead_of_continuation hb]
    · left
      intro s s'
      show (next s b).1 = (next s' b).1
      rw [next_of_not_continuation hb, next_of_not_continuation hb]
  flush := rfl

/-- Only a decoder inside a character writes at the end. -/
theorem after_of_complete {bytes : List UInt8}
    (h : (decoder.run bytes).getLast? ≠ some replacement) :
    decoder.after .start bytes = .start := by
  cases hs : decoder.after .start bytes with
  | start => rfl
  | pending more bits lower upper =>
    refine absurd ?_ h
    have hflush : decoder.flush (decoder.after decoder.start bytes) = [replacement] :=
      congrArg flush hs
    rw [Transducer.run, hflush, List.getLast?_append_of_ne_nil _ (by simp), List.getLast?_singleton]

theorem next_continuation (more bits lower upper : Nat) {low : Nat} (hlow : low < 0x40)
    (h : lower ≤ low ∧ low ≤ upper) :
    next (.pending more bits lower upper) (UInt8.ofNat (low + 0x80)) =
      advance more (bits * 64 + low) := by
  have hn : (UInt8.ofNat (low + 0x80)).toNat = low + 0x80 := by
    rw [UInt8.toNat_ofNat']
    omega
  rw [next, hn, Nat.add_sub_cancel, if_pos ⟨⟨by omega, by omega⟩, h⟩]

theorem toNat_ofNat {n : Nat} (h : n < 0x100) : (UInt8.ofNat n).toNat = n := by
  rw [UInt8.toNat_ofNat']
  exact Nat.mod_eq_of_lt h

theorem lead_two (n : Nat) (h : 2 ≤ n) (h' : n < 0x20) :
    lead (UInt8.ofNat (n + 0xC0)) = (.pending 0 n 0 0x3F, []) := by
  rw [lead, toNat_ofNat (by omega), if_neg (by omega), if_pos (by omega), Nat.add_sub_cancel]

theorem lead_three (n : Nat) (h : n < 0x10) : lead (UInt8.ofNat (n + 0xE0)) =
    (.pending 1 n (if n = 0 then 0x20 else 0) (if n = 0xD then 0x1F else 0x3F), []) := by
  rw [lead, toNat_ofNat (by omega), if_neg (by omega), if_neg (by omega), if_pos (by omega),
    Nat.add_sub_cancel]
  simp only [Nat.add_eq_right, Nat.reduceEqDiff]

theorem lead_four (n : Nat) (h : n < 5) : lead (UInt8.ofNat (n + 0xF0)) =
    (.pending 2 n (if n = 0 then 0x10 else 0) (if n = 4 then 0x0F else 0x3F), []) := by
  rw [lead, toNat_ofNat (by omega), if_neg (by omega), if_neg (by omega), if_neg (by omega),
    if_pos (by omega), Nat.add_sub_cancel]
  simp only [Nat.add_eq_right, Nat.reduceEqDiff]

theorem emitted_cons (s : State) (b : UInt8) (w : List UInt8) :
    decoder.emitted s (b :: w) = (next s b).2 ++ decoder.emitted (next s b).1 w := rfl

theorem after_cons (s : State) (b : UInt8) (w : List UInt8) :
    decoder.after s (b :: w) = decoder.after (next s b).1 w := rfl

/-- The bytes of a character are read as the character. -/
theorem read_encoded (c : Char) :
    decoder.emitted .start (String.utf8EncodeChar c) = [c] ∧
      decoder.after .start (String.utf8EncodeChar c) = .start := by
  have hvalid : c.toNat < 0xD800 ∨ 0xDFFF < c.toNat ∧ c.toNat < 0x110000 := c.valid
  have hv : c.val.toNat = c.toNat := rfl
  have hchar : ∀ n, n = c.toNat → Char.ofNat n = c := by
    rintro n rfl
    exact Char.ofNat_toNat c
  have hlow : ∀ n, n % 64 < 0x40 := fun n => Nat.mod_lt _ (by decide)
  generalize c.toNat = v at hvalid hv hchar
  unfold String.utf8EncodeChar
  simp only [hv]
  split
  · next h1 =>
    have hlead : next .start (UInt8.ofNat v) = (.start, [Char.ofNat v]) := by
      rw [next, lead, toNat_ofNat (by omega), if_pos (by omega)]
    rw [emitted_cons, after_cons, hlead, hchar v rfl]
    exact ⟨rfl, rfl⟩
  split
  · next h1 h2 =>
    have hlead := lead_two (v / 64 % 0x20) (by omega) (by omega)
    have hlast := next_continuation 0 (v / 64 % 0x20) 0 0x3F (hlow v) (by omega)
    rw [emitted_cons, after_cons, next, hlead, emitted_cons, after_cons, hlast, advance,
      hchar _ (by omega)]
    exact ⟨rfl, rfl⟩
  split
  · next h1 h2 h3 =>
    have hlead := lead_three (v / 4096 % 0x10) (by omega)
    have hsecond := next_continuation 1 (v / 4096 % 0x10)
      (if v / 4096 % 0x10 = 0 then 0x20 else 0) (if v / 4096 % 0x10 = 0xD then 0x1F else 0x3F)
      (hlow (v / 64)) (by constructor <;> split <;> omega)
    have hlast := next_continuation 0 (v / 4096 % 0x10 * 64 + v / 64 % 64) 0 0x3F (hlow v)
      (by omega)
    rw [emitted_cons, after_cons, next, hlead, emitted_cons, after_cons, hsecond, advance,
      emitted_cons, after_cons, hlast, advance, hchar _ (by omega)]
    exact ⟨rfl, rfl⟩
  · next h1 h2 h3 =>
    have hlead := lead_four (v / 262144 % 8) (by omega)
    have hsecond := next_continuation 2 (v / 262144 % 8) (if v / 262144 % 8 = 0 then 0x10 else 0)
      (if v / 262144 % 8 = 4 then 0x0F else 0x3F) (hlow (v / 4096))
      (by constructor <;> split <;> omega)
    have hthird := next_continuation 1 (v / 262144 % 8 * 64 + v / 4096 % 64) 0 0x3F
      (hlow (v / 64)) (by omega)
    have hlast := next_continuation 0 ((v / 262144 % 8 * 64 + v / 4096 % 64) * 64 + v / 64 % 64)
      0 0x3F (hlow v) (by omega)
    rw [emitted_cons, after_cons, next, hlead, emitted_cons, after_cons, hsecond, advance,
      emitted_cons, after_cons, hthird, advance, emitted_cons, after_cons, hlast, advance,
      hchar _ (by omega)]
    exact ⟨rfl, rfl⟩

/-- Decoding what was encoded. -/
theorem decodeLossy_encoded (text : String) :
    decodeLossy (text.toList.flatMap String.utf8EncodeChar) = text := by
  have hrun : ∀ l : List Char, decoder.run (l.flatMap String.utf8EncodeChar) = l := by
    intro l
    induction l with
    | nil => rfl
    | cons c l ih =>
      obtain ⟨hread, hafter⟩ := read_encoded c
      have hone : decoder.run (String.utf8EncodeChar c) = [c] := by
        show decoder.emitted .start _ ++ flush (decoder.after .start _) = _
        rw [hread, hafter]
        rfl
      rw [List.flatMap_cons, decoder_resets.run_append hafter, hone, ih]
      rfl
  rw [decodeLossy, hrun, String.ofList_toList]

end PyptoServing.Lib.Utf8
