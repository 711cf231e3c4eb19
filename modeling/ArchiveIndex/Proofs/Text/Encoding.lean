import ArchiveIndex.Text.Newline
import ArchiveIndex.Text.Utf8
import Mathlib

/-!
# Reading a written text

A text that is written to a file comes back from it.

**Theorem (`decode_encode`).** The bytes of a text are decoded as the text.
**Theorem (`unify_write`).** A text without carriage returns that is written with any line ending
has the same lines when it is read.

A character is encoded in one of four lengths, with the bits of its number shared out over the
bytes. Its second byte keeps to the range of the first, because the number is neither small
enough for a shorter form nor that of a surrogate.
-/

namespace ArchiveIndex.Utf8

/-! ## Sequences of each length -/

theorem read_one {b : UInt8} (hb : b.toNat < 0x80) (bytes : List UInt8) :
    read (b :: bytes) = (read bytes).map (Char.ofNat b.toNat :: ·) := by
  rw [read.eq_def]
  simp only [if_pos hb]
  rfl

theorem read_two {b b₁ : UInt8} (hb : 0xC2 ≤ b.toNat ∧ b.toNat < 0xE0)
    (h₁ : isSecond b.toNat b₁ = true) (bytes : List UInt8) :
    read (b :: b₁ :: bytes) =
      (read bytes).map (Char.ofNat (b.toNat % 0x20 * 0x40 + payload b₁) :: ·) := by
  have hone : ¬ b.toNat < 0x80 := by omega
  have hstart : ¬ (b.toNat < 0xC2 ∨ 0xF4 < b.toNat) := by omega
  rw [read.eq_def]
  simp only [if_neg hone, if_neg hstart, h₁, if_pos hb.2]
  rfl

theorem read_three {b b₁ b₂ : UInt8} (hb : 0xE0 ≤ b.toNat ∧ b.toNat < 0xF0)
    (h₁ : isSecond b.toNat b₁ = true) (h₂ : isContinuation b₂ = true) (bytes : List UInt8) :
    read (b :: b₁ :: b₂ :: bytes) =
      (read bytes).map
        (Char.ofNat (b.toNat % 0x10 * 0x1000 + payload b₁ * 0x40 + payload b₂) :: ·) := by
  have hone : ¬ b.toNat < 0x80 := by omega
  have hstart : ¬ (b.toNat < 0xC2 ∨ 0xF4 < b.toNat) := by omega
  have htwo : ¬ b.toNat < 0xE0 := by omega
  rw [read.eq_def]
  simp only [if_neg hone, if_neg hstart, h₁, if_neg htwo, h₂, if_pos hb.2]
  rfl

theorem read_four {b b₁ b₂ b₃ : UInt8} (hb : 0xF0 ≤ b.toNat ∧ b.toNat ≤ 0xF4)
    (h₁ : isSecond b.toNat b₁ = true) (h₂ : isContinuation b₂ = true)
    (h₃ : isContinuation b₃ = true) (bytes : List UInt8) :
    read (b :: b₁ :: b₂ :: b₃ :: bytes) =
      (read bytes).map (Char.ofNat (b.toNat % 0x8 * 0x40000 + payload b₁ * 0x1000 +
        payload b₂ * 0x40 + payload b₃) :: ·) := by
  have hone : ¬ b.toNat < 0x80 := by omega
  have hstart : ¬ (b.toNat < 0xC2 ∨ 0xF4 < b.toNat) := by omega
  have htwo : ¬ b.toNat < 0xE0 := by omega
  have hthree : ¬ b.toNat < 0xF0 := by omega
  rw [read.eq_def]
  simp only [if_neg hone, if_neg hstart, h₁, if_neg htwo, h₂, if_neg hthree, h₃]
  rfl

/-! ## Written characters -/

theorem toNat_trailByte (n : Nat) : (trailByte n).toNat = 0x80 + n % 0x40 := by
  rw [trailByte, UInt8.toNat_ofNat']
  omega

theorem isContinuation_trailByte (n : Nat) : isContinuation (trailByte n) = true := by
  simp only [isContinuation, toNat_trailByte, Bool.and_eq_true, decide_eq_true_eq]
  omega

theorem payload_trailByte (n : Nat) : payload (trailByte n) = n % 0x40 := by
  rw [payload, toNat_trailByte]
  omega

/-- Where a second byte may stand, in numbers. -/
theorem isSecond_trailByte {first n : Nat} (h₁ : first = 0xE0 → 0x20 ≤ n % 0x40)
    (h₂ : first = 0xED → n % 0x40 < 0x20) (h₃ : first = 0xF0 → 0x10 ≤ n % 0x40)
    (h₄ : first = 0xF4 → n % 0x40 < 0x10) : isSecond first (trailByte n) = true := by
  simp only [isSecond, secondRange, toNat_trailByte, Bool.and_eq_true, decide_eq_true_eq]
  split_ifs <;> simp only <;> omega

/-- A written character is read first. -/
theorem read_encodeChar (c : Char) (bytes : List UInt8) :
    read (encodeChar c ++ bytes) = (read bytes).map (c :: ·) := by
  have hvalid : c.toNat < 0xD800 ∨ 0xDFFF < c.toNat ∧ c.toNat < 0x110000 := c.valid
  have hc : Char.ofNat c.toNat = c := Char.ofNat_toNat c
  unfold encodeChar
  generalize c.toNat = n at hvalid hc
  subst hc
  simp only
  split_ifs with h₁ h₂ h₃
  · have hb : (UInt8.ofNat n).toNat = n := by rw [UInt8.toNat_ofNat']; omega
    rw [List.singleton_append, read_one (by omega), hb]
  · have hb : (UInt8.ofNat (0xC0 + n / 0x40)).toNat = 0xC0 + n / 0x40 := by
      rw [UInt8.toNat_ofNat']; omega
    have hsum : (0xC0 + n / 0x40) % 0x20 * 0x40 + n % 0x40 = n := by omega
    rw [List.cons_append, List.singleton_append, read_two, hb, payload_trailByte, hsum]
    · omega
    · exact isSecond_trailByte (by omega) (by omega) (by omega) (by omega)
  · have hb : (UInt8.ofNat (0xE0 + n / 0x1000)).toNat = 0xE0 + n / 0x1000 := by
      rw [UInt8.toNat_ofNat']; omega
    have hsum : (0xE0 + n / 0x1000) % 0x10 * 0x1000 + n / 0x40 % 0x40 * 0x40 + n % 0x40 = n := by
      omega
    rw [List.cons_append, List.cons_append, List.singleton_append,
      read_three _ _ (isContinuation_trailByte _), hb, payload_trailByte, payload_trailByte, hsum]
    · omega
    · exact isSecond_trailByte (by omega) (by omega) (by omega) (by omega)
  · have hb : (UInt8.ofNat (0xF0 + n / 0x40000)).toNat = 0xF0 + n / 0x40000 := by
      rw [UInt8.toNat_ofNat']; omega
    have hsum : (0xF0 + n / 0x40000) % 0x8 * 0x40000 + n / 0x1000 % 0x40 * 0x1000 +
        n / 0x40 % 0x40 * 0x40 + n % 0x40 = n := by
      omega
    rw [List.cons_append, List.cons_append, List.cons_append, List.singleton_append,
      read_four _ _ (isContinuation_trailByte _) (isContinuation_trailByte _), hb,
      payload_trailByte, payload_trailByte, payload_trailByte, hsum]
    · omega
    · exact isSecond_trailByte (by omega) (by omega) (by omega) (by omega)

theorem read_encode (text : List Char) : read (encode text) = .ok text := by
  induction text with
  | nil => rfl
  | cons c text ih => rw [encode, List.flatMap_cons, read_encodeChar, ← encode, ih]; rfl

/-- **The bytes of a text are decoded as the text.** -/
theorem decode_encode (text : List Char) : decode (encode text) = .ok text := by
  rw [decode, read_encode]
  rfl

end ArchiveIndex.Utf8

namespace ArchiveIndex.Newline

/-! ## Line endings -/

theorem unify_of_ne {c : Char} (h : c ≠ '\r') (rest : List Char) :
    unify (c :: rest) = c :: unify rest := by
  rw [unify, if_neg h]

/-- A carriage return is not followed by a line feed unless it was written with one. -/
theorem head?_write_cr {text : List Char} :
    (Ending.cr.write text).head? ≠ some '\n' := by
  cases text with
  | nil => simp [Ending.write]
  | cons c text => by_cases hc : c = '\n' <;> simp [Ending.write, Ending.chars, hc]

/-- **Lines are read back, whatever ends them.** -/
theorem unify_write (ending : Ending) {text : List Char} (h : '\r' ∉ text) :
    unify (ending.write text) = text := by
  induction text with
  | nil => rfl
  | cons c text ih =>
    obtain ⟨hc, htext⟩ := List.ne_and_not_mem_of_not_mem_cons h
    have ih := ih htext
    rw [Ending.write, List.flatMap_cons, ← Ending.write]
    by_cases hfeed : c = '\n'
    · subst hfeed
      rw [if_pos rfl]
      cases ending with
      | lf => exact (unify_of_ne (by decide) _).trans (congrArg _ ih)
      | crlf =>
        have hskip : unify ('\r' :: '\n' :: Ending.crlf.write text) =
            unify ('\n' :: Ending.crlf.write text) := by
          rw [unify]
          rfl
        exact hskip.trans ((unify_of_ne (by decide) _).trans (congrArg _ ih))
      | cr =>
        show unify ('\r' :: Ending.cr.write text) = _
        rw [unify, if_pos rfl, if_neg head?_write_cr, ih]
    · rw [if_neg hfeed, List.singleton_append, unify_of_ne (Ne.symm hc), ih]

end ArchiveIndex.Newline
