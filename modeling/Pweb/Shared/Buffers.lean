/-
# Byte strings and sizes of buffers

A C++ `std::string` or byte vector is a `Bytes`.  Two things decide how many bytes
an `async_read` asks for: integers are converted to the 64-bit `std::size_t`, and
`boost::asio::buffer` cuts a size down to the array it is given.
-/
import Mathlib

/-- `std::string` and `std::vector<uint8_t>`. -/
abbrev Bytes := List UInt8

/-- The conversion of an integer to `std::size_t`. -/
def sizeT (i : ℤ) : ℕ := (i % 2 ^ 64).toNat

/-- The size of `boost::asio::buffer(array, size)` on an array of `capacity` bytes. -/
def bufferSize (capacity size : ℕ) : ℕ := min capacity size

theorem sizeT_natCast {n : ℕ} (h : n < 2 ^ 64) : sizeT n = n := by
  unfold sizeT
  omega
