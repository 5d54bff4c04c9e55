import AquaTimestamp.Support.Hex

/-!
# Trimming of texts

What `trim` and `trim_start_matches("0x")` of the standard library leave of a text.
-/

namespace AquaTimestamp.Support

/-- `char::is_whitespace`. -/
def isWhitespace (c : Char) : Bool :=
  let n := c.toNat
  (9 ≤ n ∧ n ≤ 13) ∨ n = 0x20 ∨ n = 0x85 ∨ n = 0xA0 ∨ n = 0x1680 ∨
    (0x2000 ≤ n ∧ n ≤ 0x200A) ∨ n = 0x2028 ∨ n = 0x2029 ∨ n = 0x202F ∨ n = 0x205F ∨
    n = 0x3000

/-- `str::trim`. -/
def trimText (text : List Char) : List Char :=
  ((text.dropWhile isWhitespace).reverse.dropWhile isWhitespace).reverse

/-- `str::trim_start_matches("0x")`: every leading `0x` goes. -/
def trimStart0x : List Char → List Char
  | '0' :: 'x' :: cs => trimStart0x cs
  | cs => cs

/-- Digits have no `0x` before them. -/
theorem trimStart0x_of_digits {ds : List Char} (h : Hex.AllDigits ds) : trimStart0x ds = ds := by
  unfold trimStart0x
  split
  · have hx := h 'x' (List.mem_cons_of_mem _ (List.mem_cons_self ..))
    cases hx
  · rfl

theorem trimStart0x_encode (bs : List UInt8) :
    trimStart0x (Hex.encode bs) = Hex.encode bs :=
  trimStart0x_of_digits (Hex.allDigits_encode bs)

end AquaTimestamp.Support
