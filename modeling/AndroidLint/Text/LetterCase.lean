/-
  File:      AndroidLint/Text/LetterCase.lean
  Subject:   Capital and small letters.

  The properties are Uppercase and Lowercase of the character standard. By them a source name that
  begins with a capital is taken for a type.
-/
import AndroidLint.Text.CodeRange

namespace AndroidLint.Text

/-- Capital letters beyond ASCII that follow each other. -/
def capitalRuns : List (Nat × Nat) := [
  (0xC0, 23), (0xD8, 7), (0x178, 2), (0x181, 2), (0x184, 1), (0x186, 2), (0x189, 3), (0x18E, 4),
  (0x193, 2), (0x196, 3), (0x19C, 2), (0x19F, 2), (0x1A6, 2), (0x1A9, 1), (0x1AC, 1), (0x1AE, 2),
  (0x1B1, 3), (0x1B5, 1), (0x1B7, 2), (0x1BC, 1), (0x1C4, 1), (0x1C7, 1), (0x1CA, 1), (0x1F1, 1),
  (0x1F4, 1), (0x1F6, 3), (0x23A, 2), (0x23D, 2), (0x241, 1), (0x243, 4), (0x376, 1), (0x37F, 1),
  (0x386, 1), (0x388, 3), (0x38C, 1), (0x38E, 2), (0x391, 17), (0x3A3, 9), (0x3CF, 1), (0x3D2, 3),
  (0x3F4, 1), (0x3F7, 1), (0x3F9, 2), (0x3FD, 51), (0x4C0, 2), (0x531, 38), (0x10A0, 38),
  (0x10C7, 1), (0x10CD, 1), (0x13A0, 86), (0x1C90, 43), (0x1CBD, 3), (0x1F08, 8), (0x1F18, 6),
  (0x1F28, 8), (0x1F38, 8), (0x1F48, 6), (0x1F68, 8), (0x1FB8, 4), (0x1FC8, 4), (0x1FD8, 4),
  (0x1FE8, 5), (0x1FF8, 4), (0x2102, 1), (0x2107, 1), (0x210B, 3), (0x2110, 3), (0x2115, 1),
  (0x2119, 5), (0x212A, 4), (0x2130, 4), (0x213E, 2), (0x2145, 1), (0x2160, 16), (0x2183, 1),
  (0x24B6, 26), (0x2C00, 48), (0x2C60, 1), (0x2C62, 3), (0x2C6D, 4), (0x2C72, 1), (0x2C75, 1),
  (0x2C7E, 3), (0x2CF2, 1), (0xA77D, 2), (0xA7AA, 5), (0xA7B0, 5), (0xA7C4, 4), (0xA7C9, 1),
  (0xA7D0, 1), (0xA7F5, 1), (0xFF21, 26), (0x10400, 40), (0x104B0, 36), (0x10570, 11),
  (0x1057C, 15), (0x1058C, 7), (0x10594, 2), (0x10C80, 51), (0x118A0, 32), (0x16E40, 32),
  (0x1D400, 26), (0x1D434, 26), (0x1D468, 26), (0x1D49C, 1), (0x1D49E, 2), (0x1D4A2, 1),
  (0x1D4A5, 2), (0x1D4A9, 4), (0x1D4AE, 8), (0x1D4D0, 26), (0x1D504, 2), (0x1D507, 4), (0x1D50D, 8),
  (0x1D516, 7), (0x1D538, 2), (0x1D53B, 4), (0x1D540, 5), (0x1D546, 1), (0x1D54A, 7), (0x1D56C, 26),
  (0x1D5A0, 26), (0x1D5D4, 26), (0x1D608, 26), (0x1D63C, 26), (0x1D670, 26), (0x1D6A8, 25),
  (0x1D6E2, 25), (0x1D71C, 25), (0x1D756, 25), (0x1D790, 25), (0x1D7CA, 1), (0x1E900, 34),
  (0x1F130, 26), (0x1F150, 26), (0x1F170, 26)]

/-- Capital letters beyond ASCII that alternate with others. -/
def capitalAlternating : List (Nat × Nat) := [
  (0x100, 28), (0x139, 8), (0x14A, 23), (0x17B, 2), (0x1A2, 2), (0x1CD, 8), (0x1DE, 9), (0x1FA, 29),
  (0x248, 4), (0x370, 2), (0x3D8, 12), (0x460, 17), (0x48A, 27), (0x4C3, 6), (0x4D0, 48),
  (0x1E00, 75), (0x1E9E, 49), (0x1F59, 4), (0x2124, 3), (0x2C67, 3), (0x2C82, 49), (0x2CEB, 2),
  (0xA640, 23), (0xA680, 14), (0xA722, 7), (0xA732, 31), (0xA779, 2), (0xA780, 4), (0xA78B, 2),
  (0xA790, 2), (0xA796, 10), (0xA7B6, 7), (0xA7D6, 2)]

/-- Small letters beyond ASCII that follow each other. -/
def smallRuns : List (Nat × Nat) := [
  (0xAA, 1), (0xB5, 1), (0xBA, 1), (0xDF, 24), (0xF8, 8), (0x137, 2), (0x148, 2), (0x17E, 3),
  (0x188, 1), (0x18C, 2), (0x192, 1), (0x195, 1), (0x199, 3), (0x19E, 1), (0x1A8, 1), (0x1AA, 2),
  (0x1AD, 1), (0x1B0, 1), (0x1B9, 2), (0x1BD, 3), (0x1C6, 1), (0x1C9, 1), (0x1DC, 2), (0x1EF, 2),
  (0x233, 7), (0x23C, 1), (0x23F, 2), (0x242, 1), (0x24F, 69), (0x295, 36), (0x2C0, 2), (0x2E0, 5),
  (0x345, 1), (0x377, 1), (0x37A, 4), (0x390, 1), (0x3AC, 35), (0x3D0, 2), (0x3D5, 3), (0x3EF, 5),
  (0x3F5, 1), (0x3F8, 1), (0x3FB, 2), (0x430, 48), (0x4CE, 2), (0x560, 41), (0x10D0, 43),
  (0x10FC, 4), (0x13F8, 6), (0x1C80, 9), (0x1D00, 192), (0x1E95, 9), (0x1EFF, 9), (0x1F10, 6),
  (0x1F20, 8), (0x1F30, 8), (0x1F40, 6), (0x1F50, 8), (0x1F60, 8), (0x1F70, 14), (0x1F80, 8),
  (0x1F90, 8), (0x1FA0, 8), (0x1FB0, 5), (0x1FB6, 2), (0x1FBE, 1), (0x1FC2, 3), (0x1FC6, 2),
  (0x1FD0, 4), (0x1FD6, 2), (0x1FE0, 8), (0x1FF2, 3), (0x1FF6, 2), (0x2071, 1), (0x207F, 1),
  (0x2090, 13), (0x210A, 1), (0x210E, 2), (0x2113, 1), (0x212F, 1), (0x2134, 1), (0x2139, 1),
  (0x213C, 2), (0x2146, 4), (0x214E, 1), (0x2170, 16), (0x2184, 1), (0x24D0, 26), (0x2C30, 48),
  (0x2C61, 1), (0x2C65, 2), (0x2C71, 1), (0x2C73, 2), (0x2C76, 8), (0x2CE3, 2), (0x2CF3, 1),
  (0x2D00, 38), (0x2D27, 1), (0x2D2D, 1), (0xA69B, 3), (0xA72F, 3), (0xA76F, 10), (0xA791, 1),
  (0xA793, 3), (0xA7AF, 1), (0xA7F2, 3), (0xA7F6, 1), (0xA7F8, 3), (0xAB30, 43), (0xAB5C, 14),
  (0xAB70, 80), (0xFB00, 7), (0xFB13, 5), (0xFF41, 26), (0x10428, 40), (0x104D8, 36), (0x10597, 11),
  (0x105A3, 15), (0x105B3, 7), (0x105BB, 2), (0x10780, 1), (0x10783, 3), (0x10787, 42),
  (0x107B2, 9), (0x10CC0, 51), (0x118C0, 32), (0x16E60, 32), (0x1D41A, 26), (0x1D44E, 7),
  (0x1D456, 18), (0x1D482, 26), (0x1D4B6, 4), (0x1D4BB, 1), (0x1D4BD, 7), (0x1D4C5, 11),
  (0x1D4EA, 26), (0x1D51E, 26), (0x1D552, 26), (0x1D586, 26), (0x1D5BA, 26), (0x1D5EE, 26),
  (0x1D622, 26), (0x1D656, 26), (0x1D68A, 28), (0x1D6C2, 25), (0x1D6DC, 6), (0x1D6FC, 25),
  (0x1D716, 6), (0x1D736, 25), (0x1D750, 6), (0x1D770, 25), (0x1D78A, 6), (0x1D7AA, 25),
  (0x1D7C4, 6), (0x1D7CB, 1), (0x1DF00, 10), (0x1DF0B, 20), (0x1DF25, 6), (0x1E030, 62),
  (0x1E922, 34)]

/-- Small letters beyond ASCII that alternate with others. -/
def smallAlternating : List (Nat × Nat) := [
  (0x101, 27), (0x13A, 7), (0x14B, 23), (0x17A, 2), (0x183, 2), (0x1A1, 3), (0x1B4, 2), (0x1CC, 8),
  (0x1DF, 8), (0x1F3, 2), (0x1F9, 29), (0x247, 4), (0x371, 2), (0x3D9, 11), (0x461, 17),
  (0x48B, 27), (0x4C2, 6), (0x4D1, 48), (0x1E01, 74), (0x1E9F, 48), (0x2C68, 3), (0x2C81, 49),
  (0x2CEC, 2), (0xA641, 23), (0xA681, 13), (0xA723, 6), (0xA733, 30), (0xA77A, 2), (0xA77F, 5),
  (0xA78C, 2), (0xA797, 10), (0xA7B5, 8), (0xA7C8, 2), (0xA7D1, 5)]

/-- A capital letter. -/
def isCapital (c : Char) : Bool :=
  c.isUpper || (0x80 ≤ c.toNat &&
    (anyRunHolds 1 capitalRuns c || anyRunHolds 2 capitalAlternating c))

/-- A small letter. -/
def isSmall (c : Char) : Bool :=
  c.isLower || (0x80 ≤ c.toNat &&
    (anyRunHolds 1 smallRuns c || anyRunHolds 2 smallAlternating c))

/-- Whether a name begins with a capital letter. -/
def startsCapital (name : String) : Bool :=
  match name.toList with
  | [] => false
  | c :: _ => isCapital c

end AndroidLint.Text
