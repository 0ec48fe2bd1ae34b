import Mathlib.Tactic
import Mathlib.Data.List.Basic

/-! # UTF-8 with replacement

Decoding never fails: the longest beginning of a character that breaks off is replaced
as a whole, and so is a byte that begins none. Text that was encoded comes back as it
was, also in front of bytes of any kind.
-/

namespace ManInTheBox.Library

def encodeUtf8 (text : List Char) : List UInt8 := text.flatMap String.utf8EncodeChar

/-- The character whose encoding the bytes begin with. -/
def decodeFirst (bytes : List UInt8) : Option Char := bytes.toByteArray.utf8DecodeChar? 0

def isContinuationByte (byte : UInt8) : Bool := 0x80 ≤ byte && byte ≤ 0xbf

/-- The two bytes begin a character of three or four bytes. -/
def beginsLongCharacter (first second : UInt8) : Bool :=
  if first = 0xe0 then 0xa0 ≤ second && second ≤ 0xbf
  else if first = 0xed then 0x80 ≤ second && second ≤ 0x9f
  else if first = 0xf0 then 0x90 ≤ second && second ≤ 0xbf
  else if first = 0xf4 then 0x80 ≤ second && second ≤ 0x8f
  else 0xe1 ≤ first && first ≤ 0xf3 && isContinuationByte second

/-- How many bytes are replaced at once where no character begins. -/
def replacedLength : List UInt8 → ℕ
  | first :: second :: rest =>
    if beginsLongCharacter first second then
      if 0xf0 ≤ first && rest.head?.any isContinuationByte then 3 else 2
    else 1
  | _ => 1

/-- Decode what follows the next `skip` bytes. -/
def decodeLossyAfter : (skip : ℕ) → List UInt8 → List Char
  | _, [] => []
  | skip + 1, _ :: rest => decodeLossyAfter skip rest
  | 0, byte :: rest =>
    match decodeFirst (byte :: rest) with
    | some c => c :: decodeLossyAfter (c.utf8Size - 1) rest
    | none => '\ufffd' :: decodeLossyAfter (replacedLength (byte :: rest) - 1) rest

/-- `String::from_utf8_lossy`. -/
def fromUtf8Lossy (bytes : List UInt8) : List Char := decodeLossyAfter 0 bytes

@[simp] theorem fromUtf8Lossy_nil : fromUtf8Lossy [] = [] := rfl

@[simp] theorem encodeUtf8_nil : encodeUtf8 [] = [] := rfl

@[simp] theorem encodeUtf8_cons (c : Char) (text : List Char) :
    encodeUtf8 (c :: text) = String.utf8EncodeChar c ++ encodeUtf8 text := rfl

@[simp] theorem encodeUtf8_append (text text' : List Char) :
    encodeUtf8 (text ++ text') = encodeUtf8 text ++ encodeUtf8 text' :=
  List.flatMap_append

theorem decodeFirst_encode (c : Char) (bytes : List UInt8) :
    decodeFirst (String.utf8EncodeChar c ++ bytes) = some c := by
  rw [decodeFirst, List.toByteArray_append]
  exact ByteArray.utf8DecodeChar?_utf8EncodeChar_append

theorem decodeLossyAfter_append (skipped bytes : List UInt8) :
    decodeLossyAfter skipped.length (skipped ++ bytes) = fromUtf8Lossy bytes := by
  induction skipped with
  | nil => rfl
  | cons byte skipped ih => exact ih

theorem fromUtf8Lossy_encodeChar (c : Char) (bytes : List UInt8) :
    fromUtf8Lossy (String.utf8EncodeChar c ++ bytes) = c :: fromUtf8Lossy bytes := by
  have hfirst := decodeFirst_encode c bytes
  have hlength := String.length_utf8EncodeChar c
  cases hbytes : String.utf8EncodeChar c with
  | nil =>
    rw [hbytes, List.length_nil] at hlength
    exact absurd hlength.symm (Char.utf8Size_pos c).ne'
  | cons byte rest =>
    rw [hbytes, List.length_cons] at hlength
    rw [hbytes, List.cons_append] at hfirst
    rw [List.cons_append, fromUtf8Lossy, decodeLossyAfter, hfirst]
    simp only [← hlength, Nat.add_sub_cancel, decodeLossyAfter_append]

/-- What was encoded comes back. -/
theorem fromUtf8Lossy_encodeUtf8_append (text : List Char) (bytes : List UInt8) :
    fromUtf8Lossy (encodeUtf8 text ++ bytes) = text ++ fromUtf8Lossy bytes := by
  induction text with
  | nil => rfl
  | cons c text ih =>
    rw [encodeUtf8_cons, List.append_assoc, fromUtf8Lossy_encodeChar, ih, List.cons_append]

@[simp] theorem fromUtf8Lossy_encodeUtf8 (text : List Char) :
    fromUtf8Lossy (encodeUtf8 text) = text := by
  have h := fromUtf8Lossy_encodeUtf8_append text []
  rwa [List.append_nil, fromUtf8Lossy_nil, List.append_nil] at h

theorem toNat_ofNat_add (n base : ℕ) (h : n + base < 256) :
    (UInt8.ofNat (n + base)).toNat = n + base := by
  rw [UInt8.toNat_ofNat', Nat.mod_eq_of_lt h]

/-- An ASCII byte stands for its character alone. -/
theorem toNat_of_mem_utf8EncodeChar {c : Char} {byte : UInt8}
    (h : byte ∈ String.utf8EncodeChar c) (hascii : byte.toNat < 128) : c.toNat = byte.toNat := by
  have hvalue : c.val.toNat = c.toNat := rfl
  unfold String.utf8EncodeChar at h
  simp only [hvalue] at h
  split_ifs at h with hone htwo hthree
  · rw [List.mem_singleton.mp h, UInt8.toNat_ofNat', Nat.mod_eq_of_lt (by omega)]
  · simp only [List.mem_cons, List.not_mem_nil, or_false] at h
    rcases h with rfl | rfl <;> rw [toNat_ofNat_add _ _ (by omega)] at hascii <;> omega
  · simp only [List.mem_cons, List.not_mem_nil, or_false] at h
    rcases h with rfl | rfl | rfl <;> rw [toNat_ofNat_add _ _ (by omega)] at hascii <;> omega
  · simp only [List.mem_cons, List.not_mem_nil, or_false] at h
    rcases h with rfl | rfl | rfl | rfl <;> rw [toNat_ofNat_add _ _ (by omega)] at hascii <;> omega

theorem mem_encodeUtf8 {text : List Char} {byte : UInt8} (h : byte ∈ encodeUtf8 text)
    (hascii : byte.toNat < 128) : Char.ofNat byte.toNat ∈ text := by
  obtain ⟨c, hc, hbyte⟩ := List.mem_flatMap.mp h
  rwa [← toNat_of_mem_utf8EncodeChar hbyte hascii, Char.ofNat_toNat]

end ManInTheBox.Library
