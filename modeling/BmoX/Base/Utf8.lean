import BmoX.Base.Bytes
import Mathlib.Data.List.Basic
import Mathlib.Data.List.TakeWhile

/-!
# Text

Its lines, and the blanks at the ends of one: what a compiler does with the text of a file before
anything else. UTF-8 writes the null character as a zero byte and no other character with one, so a
text cut before a zero byte is a text.
-/

namespace BmoX.Base

/-! ### Text as characters -/

abbrev Text := List Char

/-- `White_Space` of Unicode. -/
def isBlank (c : Char) : Bool :=
  let n := c.toNat
  (9 ≤ n && n ≤ 13) || n == 0x20 || n == 0x85 || n == 0xA0 || n == 0x1680 ||
    (0x2000 ≤ n && n ≤ 0x200A) || n == 0x2028 || n == 0x2029 || n == 0x202F || n == 0x205F ||
    n == 0x3000

def trimStart (t : Text) : Text := t.dropWhile isBlank

def trimEnd (t : Text) : Text := (t.reverse.dropWhile isBlank).reverse

def trim (t : Text) : Text := trimEnd (trimStart t)

/-- A line that ends at a line feed leaves out one carriage return before it; `l` is reversed. -/
def endLine : Text → Text
  | '\r' :: l => l.reverse
  | l => l.reverse

/-- The lines of a text, after the characters of the first that were read already, the last first.
-/
def linesFrom : Text → Text → List Text
  | [], [] => []
  | l, [] => [l.reverse]
  | l, '\n' :: t => endLine l :: linesFrom [] t
  | l, c :: t => linesFrom (c :: l) t

/-- The lines of a text: they end at a line feed, with or without a carriage return before it, and
an empty line is not counted at the end. -/
def lines (t : Text) : List Text := linesFrom [] t

/-! ### Text and its zero bytes -/

/-- Bytes that are the encoding of a text. -/
def IsText (b : Bytes) : Prop := ∃ s, utf8 s = b

theorem utf8_eq_flatMap (s : String) : utf8 s = s.toList.flatMap String.utf8EncodeChar := by
  have hb : s.toByteArray = s.toList.utf8Encode := s.utf8Encode_toList.symm
  rw [utf8, hb, List.utf8Encode]
  simp

/-- A byte of ASCII is the only one of its character. -/
theorem toNat_of_mem_utf8EncodeChar {c : Char} {b : UInt8} (h : b ∈ String.utf8EncodeChar c)
    (hb : b.toNat < 128) : c.toNat = b.toNat := by
  have hne : ∀ n, 128 ≤ n → n < 256 → b ≠ UInt8.ofNat n := by
    rintro n h1 h2 rfl
    rw [UInt8.toNat_ofNat'] at hb
    omega
  change c.val.toNat = b.toNat
  simp only [String.utf8EncodeChar] at h
  split at h
  · rw [List.mem_singleton.mp h, UInt8.toNat_ofNat', Nat.mod_eq_of_lt (by omega)]
  -- the other three lengths have no byte of ASCII
  exfalso
  split at h
  · simp only [List.mem_cons, List.not_mem_nil, or_false] at h
    rcases h with h | h <;> exact hne _ (by omega) (by omega) h
  split at h
  · simp only [List.mem_cons, List.not_mem_nil, or_false] at h
    rcases h with h | h | h <;> exact hne _ (by omega) (by omega) h
  · simp only [List.mem_cons, List.not_mem_nil, or_false] at h
    rcases h with h | h | h | h <;> exact hne _ (by omega) (by omega) h

theorem zero_mem_utf8EncodeChar {c : Char} (h : 0 ∈ String.utf8EncodeChar c) : c = '\x00' :=
  Char.toNat_inj.mp (toNat_of_mem_utf8EncodeChar h (by decide))

/-- What comes before the first zero byte of a text is a text. -/
theorem isText_takeWhile (s : String) : IsText ((utf8 s).takeWhile (· ≠ 0)) := by
  have hlista : ∀ cs : List Char, IsText ((cs.flatMap String.utf8EncodeChar).takeWhile (· ≠ 0)) := by
    intro cs
    induction cs with
    | nil => exact ⟨"", by decide⟩
    | cons c cs ih =>
      rw [List.flatMap_cons]
      by_cases hc : c = '\x00'
      · have hcero : String.utf8EncodeChar '\x00' = [0] := rfl
        rw [hc, hcero]
        exact ⟨"", rfl⟩
      · have hsin : ∀ x ∈ String.utf8EncodeChar c, (decide (x ≠ 0)) = true := by
          intro x hx
          rw [decide_eq_true_eq]
          rintro rfl
          exact hc (zero_mem_utf8EncodeChar hx)
        obtain ⟨t, ht⟩ := ih
        refine ⟨String.ofList (c :: t.toList), ?_⟩
        rw [List.takeWhile_append_of_pos hsin, ← ht, utf8_eq_flatMap, utf8_eq_flatMap,
          String.toList_ofList, List.flatMap_cons]
  rw [utf8_eq_flatMap]
  exact hlista _

/-- A text does not end in a byte that starts a longer character. -/
theorem getLast?_utf8_lt {s : String} {x : UInt8} (h : (utf8 s).getLast? = some x) : x < 0xC0 := by
  have hfin : ∀ n, n < 192 → UInt8.ofNat n < 0xC0 := by
    intro n hn
    have htope : (0xC0 : UInt8).toNat = 192 := rfl
    rw [UInt8.lt_iff_toNat_lt, UInt8.toNat_ofNat', htope]
    omega
  have hchar : ∀ c, ∃ b y, String.utf8EncodeChar c = b ++ [y] ∧ y < 0xC0 := by
    intro c
    simp only [String.utf8EncodeChar]
    split
    · exact ⟨[], _, rfl, hfin _ (by omega)⟩
    split
    · exact ⟨[_], _, rfl, hfin _ (by omega)⟩
    split
    · exact ⟨[_, _], _, rfl, hfin _ (by omega)⟩
    · exact ⟨[_, _, _], _, rfl, hfin _ (by omega)⟩
  rw [utf8_eq_flatMap] at h
  rcases List.eq_nil_or_concat s.toList with hs | ⟨cs, c, hs⟩
  · rw [hs] at h
    cases h
  · obtain ⟨b, y, hc, hy⟩ := hchar c
    rw [hs, List.concat_eq_append, List.flatMap_append, List.flatMap_singleton, hc,
      ← List.append_assoc, List.getLast?_concat] at h
    cases h
    exact hy

theorem utf8_utf8D {b : Bytes} (h : IsText b) : utf8 (utf8D b) = b := by
  obtain ⟨s, rfl⟩ := h
  rw [utf8D_utf8]

theorem utf8D_eq_empty {b : Bytes} (h : ¬ IsText b) : utf8D b = "" := by
  rw [utf8D, String.fromUTF8?]
  split
  · next hv => exact absurd ⟨String.fromUTF8 _ hv, rfl⟩ h
  · rfl

end BmoX.Base
