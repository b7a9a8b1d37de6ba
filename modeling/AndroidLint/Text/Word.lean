/-
  File:      AndroidLint/Text/Word.lean
  Subject:   Word characters.

  A word character is a letter, a mark, a decimal digit, a letter number, connecting punctuation
  such as the underscore, a circled letter or one of the two joiners.
-/
import AndroidLint.Text.CodeRange

namespace AndroidLint.Text

/-- Word characters beyond ASCII. -/
def wordRuns : List (Nat × Nat) := [
  (0xAA, 1), (0xB5, 1), (0xBA, 1), (0xC0, 23), (0xD8, 31), (0xF8, 458), (0x2C6, 12), (0x2E0, 5),
  (0x2EC, 1), (0x2EE, 1), (0x300, 117), (0x376, 2), (0x37A, 4), (0x37F, 1), (0x386, 1), (0x388, 3),
  (0x38C, 1), (0x38E, 20), (0x3A3, 83), (0x3F7, 139), (0x483, 173), (0x531, 38), (0x559, 1),
  (0x560, 41), (0x591, 45), (0x5BF, 1), (0x5C1, 2), (0x5C4, 2), (0x5C7, 1), (0x5D0, 27), (0x5EF, 4),
  (0x610, 11), (0x620, 74), (0x66E, 102), (0x6D5, 8), (0x6DF, 10), (0x6EA, 19), (0x6FF, 1),
  (0x710, 59), (0x74D, 101), (0x7C0, 54), (0x7FA, 1), (0x7FD, 1), (0x800, 46), (0x840, 28),
  (0x860, 11), (0x870, 24), (0x889, 6), (0x898, 74), (0x8E3, 129), (0x966, 10), (0x971, 19),
  (0x985, 8), (0x98F, 2), (0x993, 22), (0x9AA, 7), (0x9B2, 1), (0x9B6, 4), (0x9BC, 9), (0x9C7, 2),
  (0x9CB, 4), (0x9D7, 1), (0x9DC, 2), (0x9DF, 5), (0x9E6, 12), (0x9FC, 1), (0x9FE, 1), (0xA01, 3),
  (0xA05, 6), (0xA0F, 2), (0xA13, 22), (0xA2A, 7), (0xA32, 2), (0xA35, 2), (0xA38, 2), (0xA3C, 1),
  (0xA3E, 5), (0xA47, 2), (0xA4B, 3), (0xA51, 1), (0xA59, 4), (0xA5E, 1), (0xA66, 16), (0xA81, 3),
  (0xA85, 9), (0xA8F, 3), (0xA93, 22), (0xAAA, 7), (0xAB2, 2), (0xAB5, 5), (0xABC, 10), (0xAC7, 3),
  (0xACB, 3), (0xAD0, 1), (0xAE0, 4), (0xAE6, 10), (0xAF9, 7), (0xB01, 3), (0xB05, 8), (0xB0F, 2),
  (0xB13, 22), (0xB2A, 7), (0xB32, 2), (0xB35, 5), (0xB3C, 9), (0xB47, 2), (0xB4B, 3), (0xB55, 3),
  (0xB5C, 2), (0xB5F, 5), (0xB66, 10), (0xB71, 1), (0xB82, 2), (0xB85, 6), (0xB8E, 3), (0xB92, 4),
  (0xB99, 2), (0xB9C, 1), (0xB9E, 2), (0xBA3, 2), (0xBA8, 3), (0xBAE, 12), (0xBBE, 5), (0xBC6, 3),
  (0xBCA, 4), (0xBD0, 1), (0xBD7, 1), (0xBE6, 10), (0xC00, 13), (0xC0E, 3), (0xC12, 23),
  (0xC2A, 16), (0xC3C, 9), (0xC46, 3), (0xC4A, 4), (0xC55, 2), (0xC58, 3), (0xC5D, 1), (0xC60, 4),
  (0xC66, 10), (0xC80, 4), (0xC85, 8), (0xC8E, 3), (0xC92, 23), (0xCAA, 10), (0xCB5, 5), (0xCBC, 9),
  (0xCC6, 3), (0xCCA, 4), (0xCD5, 2), (0xCDD, 2), (0xCE0, 4), (0xCE6, 10), (0xCF1, 3), (0xD00, 13),
  (0xD0E, 3), (0xD12, 51), (0xD46, 3), (0xD4A, 5), (0xD54, 4), (0xD5F, 5), (0xD66, 10), (0xD7A, 6),
  (0xD81, 3), (0xD85, 18), (0xD9A, 24), (0xDB3, 9), (0xDBD, 1), (0xDC0, 7), (0xDCA, 1), (0xDCF, 6),
  (0xDD6, 1), (0xDD8, 8), (0xDE6, 10), (0xDF2, 2), (0xE01, 58), (0xE40, 15), (0xE50, 10),
  (0xE81, 2), (0xE84, 1), (0xE86, 5), (0xE8C, 24), (0xEA5, 1), (0xEA7, 23), (0xEC0, 5), (0xEC6, 1),
  (0xEC8, 7), (0xED0, 10), (0xEDC, 4), (0xF00, 1), (0xF18, 2), (0xF20, 10), (0xF35, 1), (0xF37, 1),
  (0xF39, 1), (0xF3E, 10), (0xF49, 36), (0xF71, 20), (0xF86, 18), (0xF99, 36), (0xFC6, 1),
  (0x1000, 74), (0x1050, 78), (0x10A0, 38), (0x10C7, 1), (0x10CD, 1), (0x10D0, 43), (0x10FC, 333),
  (0x124A, 4), (0x1250, 7), (0x1258, 1), (0x125A, 4), (0x1260, 41), (0x128A, 4), (0x1290, 33),
  (0x12B2, 4), (0x12B8, 7), (0x12C0, 1), (0x12C2, 4), (0x12C8, 15), (0x12D8, 57), (0x1312, 4),
  (0x1318, 67), (0x135D, 3), (0x1380, 16), (0x13A0, 86), (0x13F8, 6), (0x1401, 620), (0x166F, 17),
  (0x1681, 26), (0x16A0, 75), (0x16EE, 11), (0x1700, 22), (0x171F, 22), (0x1740, 20), (0x1760, 13),
  (0x176E, 3), (0x1772, 2), (0x1780, 84), (0x17D7, 1), (0x17DC, 2), (0x17E0, 10), (0x180B, 3),
  (0x180F, 11), (0x1820, 89), (0x1880, 43), (0x18B0, 70), (0x1900, 31), (0x1920, 12), (0x1930, 12),
  (0x1946, 40), (0x1970, 5), (0x1980, 44), (0x19B0, 26), (0x19D0, 10), (0x1A00, 28), (0x1A20, 63),
  (0x1A60, 29), (0x1A7F, 11), (0x1A90, 10), (0x1AA7, 1), (0x1AB0, 31), (0x1B00, 77), (0x1B50, 10),
  (0x1B6B, 9), (0x1B80, 116), (0x1C00, 56), (0x1C40, 10), (0x1C4D, 49), (0x1C80, 9), (0x1C90, 43),
  (0x1CBD, 3), (0x1CD0, 3), (0x1CD4, 39), (0x1D00, 534), (0x1F18, 6), (0x1F20, 38), (0x1F48, 6),
  (0x1F50, 8), (0x1F59, 1), (0x1F5B, 1), (0x1F5D, 1), (0x1F5F, 31), (0x1F80, 53), (0x1FB6, 7),
  (0x1FBE, 1), (0x1FC2, 3), (0x1FC6, 7), (0x1FD0, 4), (0x1FD6, 6), (0x1FE0, 13), (0x1FF2, 3),
  (0x1FF6, 7), (0x200C, 2), (0x203F, 2), (0x2054, 1), (0x2071, 1), (0x207F, 1), (0x2090, 13),
  (0x20D0, 33), (0x2102, 1), (0x2107, 1), (0x210A, 10), (0x2115, 1), (0x2119, 5), (0x2124, 1),
  (0x2126, 1), (0x2128, 1), (0x212A, 4), (0x212F, 11), (0x213C, 4), (0x2145, 5), (0x214E, 1),
  (0x2160, 41), (0x24B6, 52), (0x2C00, 229), (0x2CEB, 9), (0x2D00, 38), (0x2D27, 1), (0x2D2D, 1),
  (0x2D30, 56), (0x2D6F, 1), (0x2D7F, 24), (0x2DA0, 7), (0x2DA8, 7), (0x2DB0, 7), (0x2DB8, 7),
  (0x2DC0, 7), (0x2DC8, 7), (0x2DD0, 7), (0x2DD8, 7), (0x2DE0, 32), (0x2E2F, 1), (0x3005, 3),
  (0x3021, 15), (0x3031, 5), (0x3038, 5), (0x3041, 86), (0x3099, 2), (0x309D, 3), (0x30A1, 90),
  (0x30FC, 4), (0x3105, 43), (0x3131, 94), (0x31A0, 32), (0x31F0, 16), (0x3400, 6592),
  (0x4E00, 22157), (0xA4D0, 46), (0xA500, 269), (0xA610, 28), (0xA640, 51), (0xA674, 10),
  (0xA67F, 115), (0xA717, 9), (0xA722, 103), (0xA78B, 64), (0xA7D0, 2), (0xA7D3, 1), (0xA7D5, 5),
  (0xA7F2, 54), (0xA82C, 1), (0xA840, 52), (0xA880, 70), (0xA8D0, 10), (0xA8E0, 24), (0xA8FB, 1),
  (0xA8FD, 49), (0xA930, 36), (0xA960, 29), (0xA980, 65), (0xA9CF, 11), (0xA9E0, 31), (0xAA00, 55),
  (0xAA40, 14), (0xAA50, 10), (0xAA60, 23), (0xAA7A, 73), (0xAADB, 3), (0xAAE0, 16), (0xAAF2, 5),
  (0xAB01, 6), (0xAB09, 6), (0xAB11, 6), (0xAB20, 7), (0xAB28, 7), (0xAB30, 43), (0xAB5C, 14),
  (0xAB70, 123), (0xABEC, 2), (0xABF0, 10), (0xAC00, 11172), (0xD7B0, 23), (0xD7CB, 49),
  (0xF900, 366), (0xFA70, 106), (0xFB00, 7), (0xFB13, 5), (0xFB1D, 12), (0xFB2A, 13), (0xFB38, 5),
  (0xFB3E, 1), (0xFB40, 2), (0xFB43, 2), (0xFB46, 108), (0xFBD3, 363), (0xFD50, 64), (0xFD92, 54),
  (0xFDF0, 12), (0xFE00, 16), (0xFE20, 16), (0xFE33, 2), (0xFE4D, 3), (0xFE70, 5), (0xFE76, 135),
  (0xFF10, 10), (0xFF21, 26), (0xFF3F, 1), (0xFF41, 26), (0xFF66, 89), (0xFFC2, 6), (0xFFCA, 6),
  (0xFFD2, 6), (0xFFDA, 3), (0x10000, 12), (0x1000D, 26), (0x10028, 19), (0x1003C, 2),
  (0x1003F, 15), (0x10050, 14), (0x10080, 123), (0x10140, 53), (0x101FD, 1), (0x10280, 29),
  (0x102A0, 49), (0x102E0, 1), (0x10300, 32), (0x1032D, 30), (0x10350, 43), (0x10380, 30),
  (0x103A0, 36), (0x103C8, 8), (0x103D1, 5), (0x10400, 158), (0x104A0, 10), (0x104B0, 36),
  (0x104D8, 36), (0x10500, 40), (0x10530, 52), (0x10570, 11), (0x1057C, 15), (0x1058C, 7),
  (0x10594, 2), (0x10597, 11), (0x105A3, 15), (0x105B3, 7), (0x105BB, 2), (0x10600, 311),
  (0x10740, 22), (0x10760, 8), (0x10780, 6), (0x10787, 42), (0x107B2, 9), (0x10800, 6),
  (0x10808, 1), (0x1080A, 44), (0x10837, 2), (0x1083C, 1), (0x1083F, 23), (0x10860, 23),
  (0x10880, 31), (0x108E0, 19), (0x108F4, 2), (0x10900, 22), (0x10920, 26), (0x10980, 56),
  (0x109BE, 2), (0x10A00, 4), (0x10A05, 2), (0x10A0C, 8), (0x10A15, 3), (0x10A19, 29), (0x10A38, 3),
  (0x10A3F, 1), (0x10A60, 29), (0x10A80, 29), (0x10AC0, 8), (0x10AC9, 30), (0x10B00, 54),
  (0x10B40, 22), (0x10B60, 19), (0x10B80, 18), (0x10C00, 73), (0x10C80, 51), (0x10CC0, 51),
  (0x10D00, 40), (0x10D30, 10), (0x10E80, 42), (0x10EAB, 2), (0x10EB0, 2), (0x10EFD, 32),
  (0x10F27, 1), (0x10F30, 33), (0x10F70, 22), (0x10FB0, 21), (0x10FE0, 23), (0x11000, 71),
  (0x11066, 16), (0x1107F, 60), (0x110C2, 1), (0x110D0, 25), (0x110F0, 10), (0x11100, 53),
  (0x11136, 10), (0x11144, 4), (0x11150, 36), (0x11176, 1), (0x11180, 69), (0x111C9, 4),
  (0x111CE, 13), (0x111DC, 1), (0x11200, 18), (0x11213, 37), (0x1123E, 4), (0x11280, 7),
  (0x11288, 1), (0x1128A, 4), (0x1128F, 15), (0x1129F, 10), (0x112B0, 59), (0x112F0, 10),
  (0x11300, 4), (0x11305, 8), (0x1130F, 2), (0x11313, 22), (0x1132A, 7), (0x11332, 2), (0x11335, 5),
  (0x1133B, 10), (0x11347, 2), (0x1134B, 3), (0x11350, 1), (0x11357, 1), (0x1135D, 7), (0x11366, 7),
  (0x11370, 5), (0x11400, 75), (0x11450, 10), (0x1145E, 4), (0x11480, 70), (0x114C7, 1),
  (0x114D0, 10), (0x11580, 54), (0x115B8, 9), (0x115D8, 6), (0x11600, 65), (0x11644, 1),
  (0x11650, 10), (0x11680, 57), (0x116C0, 10), (0x11700, 27), (0x1171D, 15), (0x11730, 10),
  (0x11740, 7), (0x11800, 59), (0x118A0, 74), (0x118FF, 8), (0x11909, 1), (0x1190C, 8),
  (0x11915, 2), (0x11918, 30), (0x11937, 2), (0x1193B, 9), (0x11950, 10), (0x119A0, 8),
  (0x119AA, 46), (0x119DA, 8), (0x119E3, 2), (0x11A00, 63), (0x11A47, 1), (0x11A50, 74),
  (0x11A9D, 1), (0x11AB0, 73), (0x11C00, 9), (0x11C0A, 45), (0x11C38, 9), (0x11C50, 10),
  (0x11C72, 30), (0x11C92, 22), (0x11CA9, 14), (0x11D00, 7), (0x11D08, 2), (0x11D0B, 44),
  (0x11D3A, 1), (0x11D3C, 2), (0x11D3F, 9), (0x11D50, 10), (0x11D60, 6), (0x11D67, 2),
  (0x11D6A, 37), (0x11D90, 2), (0x11D93, 6), (0x11DA0, 10), (0x11EE0, 23), (0x11F00, 17),
  (0x11F12, 41), (0x11F3E, 5), (0x11F50, 10), (0x11FB0, 1), (0x12000, 922), (0x12400, 111),
  (0x12480, 196), (0x12F90, 97), (0x13000, 1072), (0x13440, 22), (0x14400, 583), (0x16800, 569),
  (0x16A40, 31), (0x16A60, 10), (0x16A70, 79), (0x16AC0, 10), (0x16AD0, 30), (0x16AF0, 5),
  (0x16B00, 55), (0x16B40, 4), (0x16B50, 10), (0x16B63, 21), (0x16B7D, 19), (0x16E40, 64),
  (0x16F00, 75), (0x16F4F, 57), (0x16F8F, 17), (0x16FE0, 2), (0x16FE3, 2), (0x16FF0, 2),
  (0x17000, 6136), (0x18800, 1238), (0x18D00, 9), (0x1AFF0, 4), (0x1AFF5, 7), (0x1AFFD, 2),
  (0x1B000, 291), (0x1B132, 1), (0x1B150, 3), (0x1B155, 1), (0x1B164, 4), (0x1B170, 396),
  (0x1BC00, 107), (0x1BC70, 13), (0x1BC80, 9), (0x1BC90, 10), (0x1BC9D, 2), (0x1CF00, 46),
  (0x1CF30, 23), (0x1D165, 5), (0x1D16D, 6), (0x1D17B, 8), (0x1D185, 7), (0x1D1AA, 4), (0x1D242, 3),
  (0x1D400, 85), (0x1D456, 71), (0x1D49E, 2), (0x1D4A2, 1), (0x1D4A5, 2), (0x1D4A9, 4),
  (0x1D4AE, 12), (0x1D4BB, 1), (0x1D4BD, 7), (0x1D4C5, 65), (0x1D507, 4), (0x1D50D, 8),
  (0x1D516, 7), (0x1D51E, 28), (0x1D53B, 4), (0x1D540, 5), (0x1D546, 1), (0x1D54A, 7),
  (0x1D552, 340), (0x1D6A8, 25), (0x1D6C2, 25), (0x1D6DC, 31), (0x1D6FC, 25), (0x1D716, 31),
  (0x1D736, 25), (0x1D750, 31), (0x1D770, 25), (0x1D78A, 31), (0x1D7AA, 25), (0x1D7C4, 8),
  (0x1D7CE, 50), (0x1DA00, 55), (0x1DA3B, 50), (0x1DA75, 1), (0x1DA84, 1), (0x1DA9B, 5),
  (0x1DAA1, 15), (0x1DF00, 31), (0x1DF25, 6), (0x1E000, 7), (0x1E008, 17), (0x1E01B, 7),
  (0x1E023, 2), (0x1E026, 5), (0x1E030, 62), (0x1E08F, 1), (0x1E100, 45), (0x1E130, 14),
  (0x1E140, 10), (0x1E14E, 1), (0x1E290, 31), (0x1E2C0, 58), (0x1E4D0, 42), (0x1E7E0, 7),
  (0x1E7E8, 4), (0x1E7ED, 2), (0x1E7F0, 15), (0x1E800, 197), (0x1E8D0, 7), (0x1E900, 76),
  (0x1E950, 10), (0x1EE00, 4), (0x1EE05, 27), (0x1EE21, 2), (0x1EE24, 1), (0x1EE27, 1),
  (0x1EE29, 10), (0x1EE34, 4), (0x1EE39, 1), (0x1EE3B, 1), (0x1EE42, 1), (0x1EE47, 1), (0x1EE49, 1),
  (0x1EE4B, 1), (0x1EE4D, 3), (0x1EE51, 2), (0x1EE54, 1), (0x1EE57, 1), (0x1EE59, 1), (0x1EE5B, 1),
  (0x1EE5D, 1), (0x1EE5F, 1), (0x1EE61, 2), (0x1EE64, 1), (0x1EE67, 4), (0x1EE6C, 7), (0x1EE74, 4),
  (0x1EE79, 4), (0x1EE7E, 1), (0x1EE80, 10), (0x1EE8B, 17), (0x1EEA1, 3), (0x1EEA5, 5),
  (0x1EEAB, 17), (0x1F130, 26), (0x1F150, 26), (0x1F170, 26), (0x1FBF0, 10), (0x20000, 42720),
  (0x2A700, 4154), (0x2B740, 222), (0x2B820, 5762), (0x2CEB0, 7473), (0x2F800, 542),
  (0x30000, 4939), (0x31350, 4192), (0xE0100, 240)]

/-- A character of a name that needs no quotes in a configuration. -/
def isBareChar (c : Char) : Bool := c.isAlphanum || c == '_' || c == '-'

/-- A word character. -/
def isWord (c : Char) : Bool :=
  c.isAlphanum || c == '_' || (0x80 ≤ c.toNat && anyRunHolds 1 wordRuns c)

end AndroidLint.Text
