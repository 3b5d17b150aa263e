/-
# Bounds checks and network-order integers (`shared/protocol_helper.hpp`)

The two overloads of `check_end`, the readers and writers of 16 and 32 bit
fields, and the reader of strings.  `buf` and `end` are the cursor and the end of a
`ByteReader`, or the write pointer and the capacity of a `ByteWriter`; the writing
side of `check_end` is called `checkEndOut`.
-/
import Pweb.Foundation.ByteOrder
import Pweb.Foundation.ByteWriter

open ByteOrder

namespace ProtocolHelper

/-- The exceptions the modelled code throws, with their texts; `outOfRange` is
the `std::out_of_range` of `std::string::substr`. -/
inductive Exn where
  | parseError (what : String)
  | runtimeError (what : String)
  | outOfRange
  deriving DecidableEq, Repr

/-- `unexpected_end_of_message()`. -/
def unexpectedEndOfMessage : Exn := .parseError "Unexpected end of message/buffer"

/-- `invalid_string_format()`. -/
def invalidStringFormat : Exn := .parseError "Invalid string format"

/-! ## Reading -/

/-- `check_end(buf, end)`. -/
def checkEnd : ByteReader Exn Unit := ByteReader.throwAtEnd unexpectedEndOfMessage

/-- `check_end(len, buf, end)`. -/
def checkEndLen (len : ℤ) : ByteReader Exn Unit :=
  ByteReader.throwIfShort len unexpectedEndOfMessage

/-- `parse_short`: `memcpy` and `ntohs`. -/
def parseShort : ByteReader Exn UInt16 := do
  checkEndLen 2
  let val ← ByteReader.memcpy 2
  return UInt16.ofNat (ofBE val)

/-- `parse_ulong`: `memcpy` and `ntohl`. -/
def parseUlong : ByteReader Exn UInt32 := do
  checkEndLen 4
  let val ← ByteReader.memcpy 4
  return UInt32.ofNat (ofBE val)

/-- `parse_string`: the last of `len` bytes has to be a null, and the string is the C string
at the cursor, which ends at the first null.  Without any byte the test is one of `buf[-1]`. -/
def parseString (len : ℕ) : ByteReader Exn (List UInt8) := do
  checkEndLen len
  let bytes ← ByteReader.memcpy len
  match bytes.getLast? with
  | none => fun _ _ => .error .overrun
  | some 0 => return bytes.takeWhile (· ≠ 0)
  | some _ => ByteReader.fail invalidStringFormat

theorem takeWhile_concat_null (bs : List UInt8) :
    (bs ++ [0]).takeWhile (· ≠ 0) = bs.takeWhile (· ≠ 0) := by
  rw [List.takeWhile_append]
  split
  · next hall =>
    rw [(List.takeWhile_prefix _).eq_of_length hall]
    exact List.append_nil bs
  · rfl

/-- A null behind a string is found, and what follows it is not read. -/
theorem parseString_terminated (bs tail : List UInt8) :
    parseString (bs.length + 1) (bs ++ 0 :: tail) 0
      = .ok (bs.takeWhile (· ≠ 0), bs.length + 1) := by
  have hsplit : bs ++ 0 :: tail = (bs ++ [0]) ++ tail := List.append_cons bs 0 tail
  have hlen : (bs ++ [(0 : UInt8)]).length = bs.length + 1 := List.length_append
  have hcheck : checkEndLen ((bs.length + 1 : ℕ) : ℤ) (bs ++ 0 :: tail) 0 = .ok ((), 0) := by
    apply if_neg
    rw [List.length_append, List.length_cons]
    omega
  have hcopy : ByteReader.memcpy (bs.length + 1) (bs ++ 0 :: tail) 0
      = (.ok (bs ++ [0], bs.length + 1) : Except (Fault Exn) _) := by
    rw [ByteReader.memcpy, hsplit, if_pos (by rw [List.length_append, hlen]; omega), List.drop_zero,
      ← hlen, List.take_left, hlen, Nat.zero_add]
  rw [parseString, ByteReader.bind_run_ok hcheck, ByteReader.bind_run_ok hcopy]
  simp only [List.getLast?_concat]
  rw [takeWhile_concat_null]
  rfl

theorem recognizes_parseShort : Recognizes parseShort (fun v bs => bs = toBE 2 v.toNat) := by
  refine (Recognizes.throwIfShort_memcpy_bind fun xs => Recognizes.pure _).congr fun v bs => ?_
  constructor
  · rintro ⟨xs, ys, rfl, hlen, rfl, rfl⟩
    rw [List.append_nil, toBE_ofNat_ofBE_16 hlen]
  · rintro rfl
    exact ⟨toBE 2 v.toNat, [], (List.append_nil _).symm, length_toBE _ _,
      (ofNat_ofBE_toBE_16 v).symm, rfl⟩

theorem recognizes_parseUlong : Recognizes parseUlong (fun v bs => bs = toBE 4 v.toNat) := by
  refine (Recognizes.throwIfShort_memcpy_bind fun xs => Recognizes.pure _).congr fun v bs => ?_
  constructor
  · rintro ⟨xs, ys, rfl, hlen, rfl, rfl⟩
    rw [List.append_nil, toBE_ofNat_ofBE_32 hlen]
  · rintro rfl
    exact ⟨toBE 4 v.toNat, [], (List.append_nil _).symm, length_toBE _ _,
      (ofNat_ofBE_toBE_32 v).symm, rfl⟩

/-! ## Writing -/

/-- `check_end(buf, end)` on a buffer being written. -/
def checkEndOut : ByteWriter Exn Unit := ByteWriter.throwAtEnd unexpectedEndOfMessage

/-- `check_end(len, buf, end)` on a buffer being written. -/
def checkEndLenOut (len : ℤ) : ByteWriter Exn Unit :=
  ByteWriter.throwIfShort len unexpectedEndOfMessage

/-- `write_short`: `htons` and `memcpy`. -/
def writeShort (val : UInt16) : ByteWriter Exn Unit := do
  checkEndLenOut 2
  ByteWriter.put (toBE 2 val.toNat)

/-- `write_ulong`: `htonl` and `memcpy`. -/
def writeUlong (val : UInt32) : ByteWriter Exn Unit := do
  checkEndLenOut 4
  ByteWriter.put (toBE 4 val.toNat)

theorem emits_writeShort (val : UInt16) : Emits (writeShort val) True (toBE 2 val.toNat) := by
  have h := Emits.throwIfShort_put unexpectedEndOfMessage (toBE 2 val.toNat)
  rwa [length_toBE] at h

theorem emits_writeUlong (val : UInt32) : Emits (writeUlong val) True (toBE 4 val.toNat) := by
  have h := Emits.throwIfShort_put unexpectedEndOfMessage (toBE 4 val.toNat)
  rwa [length_toBE] at h

end ProtocolHelper
