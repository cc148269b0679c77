import Mathlib.Data.List.Forall2
import Mathlib.Algebra.Group.Nat.Basic

/-!
# Bytes on the wire

The protocol's numbers are big-endian words and its strings are UTF-8 text. `beBytes n v` is the
`n`-byte big-endian form of `v` and `beValue` reads one back; `beValue_beBytes` and
`beBytes_beValue` make the two inverse on words of the right width. `utf8Valid` is the check
`std::str::from_utf8` makes, after Unicode's table of well-formed byte sequences, and `RString`
is a Rust `String`: bytes that carry the proof that they pass it.
-/

namespace Flo.Wire

/-- The `n` bytes of `v` in big-endian order, most significant first; higher bytes are dropped. -/
def beBytes : Nat → Nat → List UInt8
  | 0, _ => []
  | n + 1, v => beBytes n (v / 256) ++ [UInt8.ofNat v]

/-- The number a byte string denotes when read big-endian. -/
def beValue (bytes : List UInt8) : Nat :=
  bytes.foldl (fun acc b => acc * 256 + b.toNat) 0

@[simp] theorem length_beBytes (n v : Nat) : (beBytes n v).length = n := by
  induction n generalizing v with
  | zero => rfl
  | succ n ih => simp [beBytes, ih]

@[simp] theorem beValue_nil : beValue [] = 0 := rfl

theorem beValue_concat (bytes : List UInt8) (b : UInt8) :
    beValue (bytes ++ [b]) = beValue bytes * 256 + b.toNat := by
  simp [beValue, List.foldl_append]

/-- Reading back `n` written bytes gives the value modulo `256 ^ n`. -/
theorem beValue_beBytes (n v : Nat) : beValue (beBytes n v) = v % 256 ^ n := by
  induction n generalizing v with
  | zero => simp [beBytes, Nat.mod_one]
  | succ n ih =>
      have hlow : (UInt8.ofNat v).toNat = v % 256 := rfl
      rw [beBytes, beValue_concat, ih, hlow, Nat.pow_succ, Nat.mul_comm (256 ^ n), Nat.mod_mul]
      omega

/-- A value read from `n` bytes is below `256 ^ n`. -/
theorem beValue_lt (bytes : List UInt8) : beValue bytes < 256 ^ bytes.length := by
  induction bytes using List.reverseRecOn with
  | nil => simp
  | append_singleton bytes b ih =>
      have hb : b.toNat < 256 := b.toNat_lt_size
      rw [beValue_concat, List.length_append, List.length_singleton, Nat.pow_succ]
      omega

/-- Writing back a value read from `bytes` gives `bytes`. -/
theorem beBytes_beValue (bytes : List UInt8) : beBytes bytes.length (beValue bytes) = bytes := by
  induction bytes using List.reverseRecOn with
  | nil => rfl
  | append_singleton bytes b ih =>
      have hb : b.toNat < 256 := b.toNat_lt_size
      have hdiv : (beValue bytes * 256 + b.toNat) / 256 = beValue bytes := by omega
      have hlow : UInt8.ofNat (beValue bytes * 256 + b.toNat) = b :=
        UInt8.toNat.inj (by show (beValue bytes * 256 + b.toNat) % 256 = b.toNat; omega)
      rw [List.length_append, List.length_singleton, beBytes, beValue_concat, hdiv, hlow, ih]

/-! ## Fixed-width words -/

/-- The two big-endian bytes of a `u16`. -/
def u16 (v : UInt16) : List UInt8 := beBytes 2 v.toNat

/-- The four big-endian bytes of a `u32`. -/
def u32 (v : UInt32) : List UInt8 := beBytes 4 v.toNat

/-- The eight big-endian bytes of a `u64`. -/
def u64 (v : UInt64) : List UInt8 := beBytes 8 v.toNat

@[simp] theorem length_u16 (v : UInt16) : (u16 v).length = 2 := length_beBytes _ _
@[simp] theorem length_u32 (v : UInt32) : (u32 v).length = 4 := length_beBytes _ _
@[simp] theorem length_u64 (v : UInt64) : (u64 v).length = 8 := length_beBytes _ _

@[simp] theorem ofNat_toNat_u16 (v : UInt16) : UInt16.ofNat v.toNat = v :=
  UInt16.toNat.inj (Nat.mod_eq_of_lt v.toNat_lt_size)

/-- The source tests `counter > 0`; for an unsigned word that is `counter ≠ 0`. -/
theorem pos_iff_ne_zero_u64 (c : UInt64) : 0 < c ↔ c ≠ 0 := by
  constructor
  · rintro h rfl
    exact absurd h (by decide)
  · intro h
    have : c.toNat ≠ 0 := fun h0 => h (UInt64.toNat.inj h0)
    show 0 < c.toNat
    omega

/-! ## UTF-8 text -/

/-- A continuation byte, `0x80` to `0xBF`. -/
def isCont (b : UInt8) : Bool := 0x80 ≤ b && b ≤ 0xBF

/-- Whether the bytes are well-formed UTF-8: each sequence is one of the byte patterns of
Unicode's Table 3-7, which is what `std::str::from_utf8` accepts. Overlong forms, surrogates and
code points past `U+10FFFF` are rejected through the range allowed for the second byte. -/
def utf8Valid : List UInt8 → Bool
  | [] => true
  | b :: rest =>
    if b < 0x80 then utf8Valid rest
    else match rest with
      | [] => false
      | c1 :: r1 =>
        if 0xC2 ≤ b && b ≤ 0xDF then isCont c1 && utf8Valid r1
        else match r1 with
          | [] => false
          | c2 :: r2 =>
            if 0xE0 ≤ b && b ≤ 0xEF then
              (if b = 0xE0 then 0xA0 ≤ c1 && c1 ≤ 0xBF
                else if b = 0xED then 0x80 ≤ c1 && c1 ≤ 0x9F else isCont c1)
                && isCont c2 && utf8Valid r2
            else match r2 with
              | [] => false
              | c3 :: r3 =>
                (if b = 0xF0 then 0x90 ≤ c1 && c1 ≤ 0xBF
                  else if b = 0xF4 then 0x80 ≤ c1 && c1 ≤ 0x8F
                  else if 0xF1 ≤ b && b ≤ 0xF3 then isCont c1 else false)
                  && isCont c2 && isCont c3 && utf8Valid r3

/-- A Rust `String` or `&str`: a byte string that is valid UTF-8. -/
structure RString where
  bytes : List UInt8
  valid : utf8Valid bytes = true
deriving DecidableEq, Repr

/-- `std::str::from_utf8`: the bytes as text, or an error when they are not valid UTF-8. The
error's position is not modelled; nothing in the protocol reads it. -/
def fromUtf8 (bytes : List UInt8) : Except Unit RString :=
  if h : utf8Valid bytes = true then .ok ⟨bytes, h⟩ else .error ()

@[simp] theorem fromUtf8_bytes (s : RString) : fromUtf8 s.bytes = .ok s := by
  simp [fromUtf8, s.valid]

theorem eq_of_fromUtf8_eq_ok {bytes : List UInt8} {s : RString} (h : fromUtf8 bytes = .ok s) :
    s.bytes = bytes := by
  unfold fromUtf8 at h
  split at h
  · cases h; rfl
  · cases h

/-- A string whose byte length fits the protocol's `u16` length prefix. -/
def RString.Fits (s : RString) : Prop := s.bytes.length < 2 ^ 16

instance (s : RString) : Decidable s.Fits := inferInstanceAs (Decidable (_ < _))

/-- A string on the wire: its byte length as a `u16`, then its bytes. -/
def str (s : RString) : List UInt8 := u16 (UInt16.ofNat s.bytes.length) ++ s.bytes

end Flo.Wire
