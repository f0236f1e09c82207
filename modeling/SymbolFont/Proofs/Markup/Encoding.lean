/-
# Documents in UTF-8

A text is stored as the encodings of its characters, one behind the other.  The decoder
gives each of them back with its last byte, so a session between two characters may be
fed characters instead of bytes.
-/

import Mathlib.Tactic.Common
import SymbolFont.Markup.Reader

namespace SymbolFont.Markup

/-- A machine that takes the first symbol goes on with the others. -/
theorem foldlM_cons_some {σ α : Type} {f : σ → α → Option σ} {state next : σ} {x : α}
    (taken : f state x = some next) (xs : List α) :
    (x :: xs).foldlM f state = xs.foldlM f next := by
  rw [List.foldlM_cons, taken, Option.bind_eq_bind, Option.bind_some]

/-- A machine that takes some symbols goes on with the others. -/
theorem foldlM_append_some {σ α : Type} {f : σ → α → Option σ} {state next : σ} {xs : List α}
    (taken : xs.foldlM f state = some next) (ys : List α) :
    (xs ++ ys).foldlM f state = ys.foldlM f next := by
  rw [List.foldlM_append, taken, Option.bind_eq_bind, Option.bind_some]

/-- Reading out a byte array from an index on gives the bytes from there. -/
theorem toList_loop (array : ByteArray) (left i : Nat) (front : List UInt8)
    (size : array.size ≤ i + left) :
    ByteArray.toList.loop array i front = front.reverse ++ array.data.toList.drop i := by
  induction left generalizing i front with
  | zero =>
      have outside : ¬i < array.size := Nat.not_lt.mpr size
      rw [ByteArray.toList.loop, if_neg outside, List.drop_eq_nil_of_le, List.append_nil]
      exact Nat.not_lt.mp outside
  | succ left ih =>
      rw [ByteArray.toList.loop]
      by_cases inside : i < array.size
      · have bound : i < array.data.toList.length := inside
        have here : array.get! i = array.data.toList[i] := by
          simp [ByteArray.get!, inside]
        rw [if_pos inside, ih _ _ (by omega), List.reverse_cons, List.append_assoc, here,
          List.singleton_append, ← List.drop_eq_getElem_cons bound]
      · rw [if_neg inside, List.drop_eq_nil_of_le, List.append_nil]
        exact Nat.not_lt.mp inside

/-- The bytes of a list are those of its byte array. -/
theorem toList_toByteArray (bytes : List UInt8) : bytes.toByteArray.toList = bytes := by
  rw [ByteArray.toList, toList_loop _ _ 0 [] (Nat.le_add_left _ 0)]
  exact List.toList_data_toByteArray

/-- A text is stored character by character. -/
theorem toList_toUTF8 (text : String) :
    text.toUTF8.toList = text.toList.flatMap String.utf8EncodeChar := by
  rw [String.toUTF8_eq_toByteArray, ← String.utf8Encode_toList, List.utf8Encode,
    toList_toByteArray]

namespace Decoder

variable {n : Nat} (marked : Bool) (bits least : Nat)

/-- The number of a small byte. -/
theorem toNat_ofNat_of_lt (small : n < 256) : (UInt8.ofNat n).toNat = n :=
  UInt8.toNat_ofNat_of_lt' small

/-- A byte below the leading ones is a character. -/
theorem step_ascii (small : n < 0x80) :
    step (.utf8 marked 0 bits least) (.ofNat n) =
      some (.utf8 marked 0 0 0, some (Char.ofNat n)) := by
  rw [step, stepUtf8, toNat_ofNat_of_lt (by omega), if_pos small]

/-- The leading byte of a character of two bytes. -/
theorem step_lead_two (small : n < 0x20) :
    step (.utf8 marked 0 bits least) (.ofNat (n + 0xC0)) =
      some (.utf8 marked 1 n 0x80, none) := by
  rw [step, stepUtf8, toNat_ofNat_of_lt (by omega), if_neg (by omega), if_pos (by omega),
    Nat.add_sub_cancel]

/-- The leading byte of a character of three bytes. -/
theorem step_lead_three (small : n < 0x10) :
    step (.utf8 marked 0 bits least) (.ofNat (n + 0xE0)) =
      some (.utf8 marked 2 n 0x800, none) := by
  rw [step, stepUtf8, toNat_ofNat_of_lt (by omega), if_neg (by omega), if_neg (by omega),
    if_pos (by omega), Nat.add_sub_cancel]

/-- The leading byte of a character of four bytes. -/
theorem step_lead_four (small : n < 0x08) :
    step (.utf8 marked 0 bits least) (.ofNat (n + 0xF0)) =
      some (.utf8 marked 3 n 0x10000, none) := by
  rw [step, stepUtf8, toNat_ofNat_of_lt (by omega), if_neg (by omega), if_neg (by omega),
    if_neg (by omega), if_pos (by omega), Nat.add_sub_cancel]

/-- A byte inside a character adds six bits. -/
theorem step_inner (missing : Nat) (small : n < 0x40) :
    step (.utf8 marked (missing + 2) bits least) (.ofNat (n + 0x80)) =
      some (.utf8 marked (missing + 1) (64 * bits + n) least, none) := by
  rw [step, stepUtf8, toNat_ofNat_of_lt (by omega), if_pos (by omega), Nat.add_sub_cancel]
  rfl

/-- The last byte of a character completes it. -/
theorem step_last {c : Char} (small : n < 0x40) (number : 64 * bits + n = c.toNat)
    (large : least ≤ c.toNat) :
    step (.utf8 marked 1 bits least) (.ofNat (n + 0x80)) =
      some (.utf8 marked 0 0 0, some c) := by
  have valid : c.toNat.isValidChar := c.valid
  rw [step, stepUtf8, toNat_ofNat_of_lt (by omega), if_pos (by omega), Nat.add_sub_cancel, number]
  simp [Nat.not_lt.mpr large, scalar?, valid, Char.ofNat_toNat]

end Decoder

namespace Session

variable {decoder next : Decoder} {afterReturn : Bool} {reader : Reader} {byte : UInt8}

/-- A byte that leaves a character incomplete changes the decoder only. -/
theorem feed_of_none (taken : decoder.step byte = some (next, none)) :
    feed ⟨decoder, afterReturn, reader⟩ byte = some ⟨next, afterReturn, reader⟩ := by
  rw [feed, taken]

/-- A byte that completes a character passes it on. -/
theorem feed_of_some {c : Char} (taken : decoder.step byte = some (next, some c)) :
    feed ⟨decoder, afterReturn, reader⟩ byte =
      (feedChar ⟨next, afterReturn, reader⟩ c).bind settle := by
  rw [feed, taken]

/-- Between characters, the bytes of a character are read as the character. -/
theorem foldlM_feed_utf8EncodeChar {s : Session} (between : s.decoder = .utf8 false 0 0 0)
    (c : Char) : (String.utf8EncodeChar c).foldlM feed s = (s.feedChar c).bind settle := by
  obtain ⟨decoder, afterReturn, reader⟩ := s
  obtain rfl : decoder = .utf8 false 0 0 0 := between
  have number : c.val.toNat = c.toNat := rfl
  have bound : c.toNat < 0x110000 := by
    have valid : c.toNat.isValidChar := c.valid
    rw [Nat.isValidChar] at valid
    omega
  rw [String.utf8EncodeChar, number]
  by_cases one : c.toNat ≤ 0x7f
  · have first := Decoder.step_ascii (n := c.toNat) false 0 0 (by omega)
    rw [Char.ofNat_toNat] at first
    rw [if_pos one, List.foldlM_cons, feed_of_some first]
    exact bind_pure _
  rw [if_neg one]
  by_cases two : c.toNat ≤ 0x7ff
  · have first := Decoder.step_lead_two (n := c.toNat / 64) false 0 0 (by omega)
    have last := Decoder.step_last (c := c) (n := c.toNat % 64) false (c.toNat / 64) 0x80
      (by omega) (by omega) (by omega)
    rw [if_pos two, Nat.mod_eq_of_lt (by omega : c.toNat / 64 < 0x20),
      foldlM_cons_some (feed_of_none first), List.foldlM_cons, feed_of_some last]
    exact bind_pure _
  rw [if_neg two]
  by_cases three : c.toNat ≤ 0xffff
  · have first := Decoder.step_lead_three (n := c.toNat / 4096) false 0 0 (by omega)
    have second := Decoder.step_inner (n := c.toNat / 64 % 64) false (c.toNat / 4096) 0x800 0
      (by omega)
    have last := Decoder.step_last (c := c) (n := c.toNat % 64) false
      (64 * (c.toNat / 4096) + c.toNat / 64 % 64) 0x800 (by omega) (by omega) (by omega)
    rw [if_pos three, Nat.mod_eq_of_lt (by omega : c.toNat / 4096 < 0x10),
      foldlM_cons_some (feed_of_none first), foldlM_cons_some (feed_of_none second),
      List.foldlM_cons, feed_of_some last]
    exact bind_pure _
  · have first := Decoder.step_lead_four (n := c.toNat / 262144) false 0 0 (by omega)
    have second := Decoder.step_inner (n := c.toNat / 4096 % 64) false (c.toNat / 262144) 0x10000 1
      (by omega)
    have third := Decoder.step_inner (n := c.toNat / 64 % 64) false
      (64 * (c.toNat / 262144) + c.toNat / 4096 % 64) 0x10000 0 (by omega)
    have last := Decoder.step_last (c := c) (n := c.toNat % 64) false
      (64 * (64 * (c.toNat / 262144) + c.toNat / 4096 % 64) + c.toNat / 64 % 64) 0x10000
      (by omega) (by omega) (by omega)
    rw [if_neg three, Nat.mod_eq_of_lt (by omega : c.toNat / 262144 < 0x08),
      foldlM_cons_some (feed_of_none first), foldlM_cons_some (feed_of_none second),
      foldlM_cons_some (feed_of_none third), List.foldlM_cons, feed_of_some last]
    exact bind_pure _

end Session

end SymbolFont.Markup
