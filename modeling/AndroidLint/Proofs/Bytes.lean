/-
  File:      AndroidLint/Proofs/Bytes.lean
  Subject:   The bytes of a text.

  A character below 128 is one byte of its own value, and the bytes of any other character are 128
  and more. So a byte below 128 is never part of another character:

  * `getElem?_bytes`:   where the bytes of a character stand;
  * `toNat_of_byte`:    a byte below 128 is the whole character.
-/
import AndroidLint.Text.Offset

namespace AndroidLint.Text

/-- The bytes of a text in UTF-8. -/
def bytes (cs : List Char) : List UInt8 := cs.flatMap String.utf8EncodeChar

@[simp] theorem bytes_append (as bs : List Char) : bytes (as ++ bs) = bytes as ++ bytes bs :=
  List.flatMap_append

@[simp] theorem bytes_cons (c : Char) (cs : List Char) :
    bytes (c :: cs) = String.utf8EncodeChar c ++ bytes cs := rfl

@[simp] theorem length_bytes (cs : List Char) : (bytes cs).length = width cs := by
  induction cs with
  | nil => rfl
  | cons c cs ih =>
    rw [bytes_cons, List.length_append, String.length_utf8EncodeChar, ih, width_cons]

/-- A string has the size of its characters. -/
theorem utf8ByteSize_eq_width (s : String) : s.utf8ByteSize = width s.toList := by
  rw [← String.size_toByteArray, ← String.utf8Encode_toList, List.utf8Encode,
    List.size_toByteArray]
  exact length_bytes s.toList

theorem getElem?_bytes (as cs : List Char) (c : Char) {k : Nat} (hk : width as ≤ k)
    (hk' : k < width as + c.utf8Size) :
    ∃ b ∈ String.utf8EncodeChar c, (bytes (as ++ c :: cs))[k]? = some b := by
  have hlen : k - width as < (String.utf8EncodeChar c).length := by
    rw [String.length_utf8EncodeChar]
    omega
  refine ⟨(String.utf8EncodeChar c)[k - width as], List.getElem_mem hlen, ?_⟩
  rw [bytes_append, bytes_cons, List.getElem?_append_right (by rwa [length_bytes]), length_bytes,
    List.getElem?_append_left hlen, List.getElem?_eq_getElem hlen]

theorem getElem?_bytes_eq_none {cs : List Char} {k : Nat} (hk : width cs ≤ k) :
    (bytes cs)[k]? = none := by
  rw [List.getElem?_eq_none_iff, length_bytes]
  exact hk

/-- A byte below 128 is the whole character. -/
theorem toNat_of_byte {c : Char} {b : UInt8} (h : b ∈ String.utf8EncodeChar c)
    (hb : b.toNat < 128) : c.toNat = b.toNat ∧ c.utf8Size = 1 := by
  rw [← String.length_utf8EncodeChar]
  unfold String.utf8EncodeChar at h ⊢
  simp only at h ⊢
  split at h
  · rename_i hv
    rw [if_pos hv]
    rw [List.mem_singleton] at h
    subst h
    refine ⟨?_, rfl⟩
    show c.val.toNat = (UInt8.ofNat c.val.toNat).toNat
    rw [UInt8.toNat_ofNat']
    omega
  · exfalso
    split at h
    · simp only [List.mem_cons, List.not_mem_nil, or_false] at h
      rcases h with rfl | rfl <;> rw [UInt8.toNat_ofNat'] at hb <;> omega
    · split at h
      · simp only [List.mem_cons, List.not_mem_nil, or_false] at h
        rcases h with rfl | rfl | rfl <;> rw [UInt8.toNat_ofNat'] at hb <;> omega
      · simp only [List.mem_cons, List.not_mem_nil, or_false] at h
        rcases h with rfl | rfl | rfl | rfl <;> rw [UInt8.toNat_ofNat'] at hb <;> omega

end AndroidLint.Text
