import Mathlib.Data.List.Basic
import Mathlib.Data.List.Infix
import Mathlib.Data.Nat.Notation

/-!
# `Rust.Casing` — `str::to_lowercase` and `str::to_uppercase`

The tables are columns of the Unicode character database, version 16, run-length encoded. `lowerRanges` and
`upperRanges` hold the mappings to one character, most of them from the same pairs of letters (`letterPairs`);
`upperSpecial` the characters whose uppercase form has several (there is one such lowercase form). Upper casing looks
at one character at a time. Lower casing does too, except for the capital sigma, which becomes a final sigma at the
end of a word; `casedRuns` and `caseIgnorableRuns` are what that rule reads.
-/

namespace Freeclawdia.Rust

/-! ## Lower casing -/

/-- Capital letters with the small letters they are the capitals of, as `(first, last, stride, offset)`. -/
def letterPairs : List (Nat × Nat × Nat × Int) := [
  (0x41, 0x5a, 1, 32), (0xc0, 0xd6, 1, 32), (0xd8, 0xde, 1, 32), (0x100, 0x12e, 2, 1), (0x132, 0x136, 2, 1),
  (0x139, 0x147, 2, 1), (0x14a, 0x176, 2, 1), (0x178, 0x178, 1, -121), (0x179, 0x17d, 2, 1), (0x181, 0x181, 1, 210),
  (0x182, 0x184, 2, 1), (0x186, 0x186, 1, 206), (0x187, 0x187, 1, 1), (0x189, 0x18a, 1, 205), (0x18b, 0x18b, 1, 1),
  (0x18e, 0x18e, 1, 79), (0x18f, 0x18f, 1, 202), (0x190, 0x190, 1, 203), (0x191, 0x191, 1, 1), (0x193, 0x193, 1, 205),
  (0x194, 0x194, 1, 207), (0x196, 0x196, 1, 211), (0x197, 0x197, 1, 209), (0x198, 0x198, 1, 1),
  (0x19c, 0x19c, 1, 211), (0x19d, 0x19d, 1, 213), (0x19f, 0x19f, 1, 214), (0x1a0, 0x1a4, 2, 1),
  (0x1a6, 0x1a6, 1, 218), (0x1a7, 0x1a7, 1, 1), (0x1a9, 0x1a9, 1, 218), (0x1ac, 0x1ac, 1, 1), (0x1ae, 0x1ae, 1, 218),
  (0x1af, 0x1af, 1, 1), (0x1b1, 0x1b2, 1, 217), (0x1b3, 0x1b5, 2, 1), (0x1b7, 0x1b7, 1, 219), (0x1b8, 0x1b8, 1, 1),
  (0x1bc, 0x1bc, 1, 1), (0x1c4, 0x1c4, 1, 2), (0x1c7, 0x1c7, 1, 2), (0x1ca, 0x1ca, 1, 2), (0x1cd, 0x1db, 2, 1),
  (0x1de, 0x1ee, 2, 1), (0x1f1, 0x1f1, 1, 2), (0x1f4, 0x1f4, 1, 1), (0x1f6, 0x1f6, 1, -97), (0x1f7, 0x1f7, 1, -56),
  (0x1f8, 0x21e, 2, 1), (0x220, 0x220, 1, -130), (0x222, 0x232, 2, 1), (0x23a, 0x23a, 1, 10795), (0x23b, 0x23b, 1, 1),
  (0x23d, 0x23d, 1, -163), (0x23e, 0x23e, 1, 10792), (0x241, 0x241, 1, 1), (0x243, 0x243, 1, -195),
  (0x244, 0x244, 1, 69), (0x245, 0x245, 1, 71), (0x246, 0x24e, 2, 1), (0x370, 0x372, 2, 1), (0x376, 0x376, 1, 1),
  (0x37f, 0x37f, 1, 116), (0x386, 0x386, 1, 38), (0x388, 0x38a, 1, 37), (0x38c, 0x38c, 1, 64), (0x38e, 0x38f, 1, 63),
  (0x391, 0x3a1, 1, 32), (0x3a3, 0x3ab, 1, 32), (0x3cf, 0x3cf, 1, 8), (0x3d8, 0x3ee, 2, 1), (0x3f7, 0x3f7, 1, 1),
  (0x3f9, 0x3f9, 1, -7), (0x3fa, 0x3fa, 1, 1), (0x3fd, 0x3ff, 1, -130), (0x400, 0x40f, 1, 80), (0x410, 0x42f, 1, 32),
  (0x460, 0x480, 2, 1), (0x48a, 0x4be, 2, 1), (0x4c0, 0x4c0, 1, 15), (0x4c1, 0x4cd, 2, 1), (0x4d0, 0x52e, 2, 1),
  (0x531, 0x556, 1, 48), (0x10a0, 0x10c5, 1, 7264), (0x10c7, 0x10c7, 1, 7264), (0x10cd, 0x10cd, 1, 7264),
  (0x13a0, 0x13ef, 1, 38864), (0x13f0, 0x13f5, 1, 8), (0x1c89, 0x1c89, 1, 1), (0x1c90, 0x1cba, 1, -3008),
  (0x1cbd, 0x1cbf, 1, -3008), (0x1e00, 0x1e94, 2, 1), (0x1ea0, 0x1efe, 2, 1), (0x1f08, 0x1f0f, 1, -8),
  (0x1f18, 0x1f1d, 1, -8), (0x1f28, 0x1f2f, 1, -8), (0x1f38, 0x1f3f, 1, -8), (0x1f48, 0x1f4d, 1, -8),
  (0x1f59, 0x1f5f, 2, -8), (0x1f68, 0x1f6f, 1, -8), (0x1fb8, 0x1fb9, 1, -8), (0x1fba, 0x1fbb, 1, -74),
  (0x1fc8, 0x1fcb, 1, -86), (0x1fd8, 0x1fd9, 1, -8), (0x1fda, 0x1fdb, 1, -100), (0x1fe8, 0x1fe9, 1, -8),
  (0x1fea, 0x1feb, 1, -112), (0x1fec, 0x1fec, 1, -7), (0x1ff8, 0x1ff9, 1, -128), (0x1ffa, 0x1ffb, 1, -126),
  (0x2132, 0x2132, 1, 28), (0x2160, 0x216f, 1, 16), (0x2183, 0x2183, 1, 1), (0x24b6, 0x24cf, 1, 26),
  (0x2c00, 0x2c2f, 1, 48), (0x2c60, 0x2c60, 1, 1), (0x2c62, 0x2c62, 1, -10743), (0x2c63, 0x2c63, 1, -3814),
  (0x2c64, 0x2c64, 1, -10727), (0x2c67, 0x2c6b, 2, 1), (0x2c6d, 0x2c6d, 1, -10780), (0x2c6e, 0x2c6e, 1, -10749),
  (0x2c6f, 0x2c6f, 1, -10783), (0x2c70, 0x2c70, 1, -10782), (0x2c72, 0x2c72, 1, 1), (0x2c75, 0x2c75, 1, 1),
  (0x2c7e, 0x2c7f, 1, -10815), (0x2c80, 0x2ce2, 2, 1), (0x2ceb, 0x2ced, 2, 1), (0x2cf2, 0x2cf2, 1, 1),
  (0xa640, 0xa66c, 2, 1), (0xa680, 0xa69a, 2, 1), (0xa722, 0xa72e, 2, 1), (0xa732, 0xa76e, 2, 1),
  (0xa779, 0xa77b, 2, 1), (0xa77d, 0xa77d, 1, -35332), (0xa77e, 0xa786, 2, 1), (0xa78b, 0xa78b, 1, 1),
  (0xa78d, 0xa78d, 1, -42280), (0xa790, 0xa792, 2, 1), (0xa796, 0xa7a8, 2, 1), (0xa7aa, 0xa7aa, 1, -42308),
  (0xa7ab, 0xa7ab, 1, -42319), (0xa7ac, 0xa7ac, 1, -42315), (0xa7ad, 0xa7ad, 1, -42305), (0xa7ae, 0xa7ae, 1, -42308),
  (0xa7b0, 0xa7b0, 1, -42258), (0xa7b1, 0xa7b1, 1, -42282), (0xa7b2, 0xa7b2, 1, -42261), (0xa7b3, 0xa7b3, 1, 928),
  (0xa7b4, 0xa7c2, 2, 1), (0xa7c4, 0xa7c4, 1, -48), (0xa7c5, 0xa7c5, 1, -42307), (0xa7c6, 0xa7c6, 1, -35384),
  (0xa7c7, 0xa7c9, 2, 1), (0xa7cb, 0xa7cb, 1, -42343), (0xa7cc, 0xa7cc, 1, 1), (0xa7d0, 0xa7d0, 1, 1),
  (0xa7d6, 0xa7da, 2, 1), (0xa7dc, 0xa7dc, 1, -42561), (0xa7f5, 0xa7f5, 1, 1), (0xff21, 0xff3a, 1, 32),
  (0x10400, 0x10427, 1, 40), (0x104b0, 0x104d3, 1, 40), (0x10570, 0x1057a, 1, 39), (0x1057c, 0x1058a, 1, 39),
  (0x1058c, 0x10592, 1, 39), (0x10594, 0x10595, 1, 39), (0x10c80, 0x10cb2, 1, 64), (0x10d50, 0x10d65, 1, 32),
  (0x118a0, 0x118bf, 1, 32), (0x16e40, 0x16e5f, 1, 32), (0x1e900, 0x1e921, 1, 34)]

/-- Simple lowercase mappings: the pairs, and those that do not lead back. -/
def lowerRanges : List (Nat × Nat × Nat × Int) := letterPairs ++ [
  (0x1c5, 0x1c5, 1, 1), (0x1c8, 0x1c8, 1, 1), (0x1cb, 0x1cb, 1, 1), (0x1f2, 0x1f2, 1, 1), (0x3f4, 0x3f4, 1, -60),
  (0x1e9e, 0x1e9e, 1, -7615), (0x1f88, 0x1f8f, 1, -8), (0x1f98, 0x1f9f, 1, -8), (0x1fa8, 0x1faf, 1, -8),
  (0x1fbc, 0x1fbc, 1, -9), (0x1fcc, 0x1fcc, 1, -9), (0x1ffc, 0x1ffc, 1, -9), (0x2126, 0x2126, 1, -7517),
  (0x212a, 0x212a, 1, -8383), (0x212b, 0x212b, 1, -8262)]

/-- `char::to_lowercase` for the scalar values with a one-character image; the dotted capital I is the
    only character whose lowercase form has two. -/
def lowerChar (c : Char) : List Char :=
  if c.toNat = 0x130 then ['i', Char.ofNat 0x307]
  else
    match lowerRanges.find? fun r =>
        r.1 ≤ c.toNat && c.toNat ≤ r.2.1 && (c.toNat - r.1) % r.2.2.1 == 0 with
    | some r => [Char.ofNat (Int.toNat (c.toNat + r.2.2.2))]
    | none => [c]

/-- The `Cased` property, less the characters that are also case-ignorable: the lengths of the runs of characters
    without it and with it, in turn. -/
def casedRuns : List Nat := [
  65, 26, 6, 26, 47, 1, 10, 1, 4, 1, 5, 23, 1, 31, 1, 195, 1, 4, 4, 208, 1, 27, 192, 4, 2, 2, 3, 3, 1, 1, 6, 1, 1, 3,
  1, 1, 1, 20, 1, 83, 1, 139, 8, 166, 1, 38, 9, 41, 2839, 38, 1, 1, 5, 1, 2, 43, 2, 3, 672, 86, 2, 6, 2178, 11, 5, 43,
  2, 3, 64, 44, 63, 13, 1, 34, 101, 278, 2, 6, 2, 38, 2, 6, 2, 8, 1, 1, 1, 1, 1, 1, 1, 31, 2, 53, 1, 7, 1, 1, 3, 3, 1,
  7, 3, 4, 2, 6, 4, 13, 5, 3, 1, 7, 261, 1, 4, 1, 2, 10, 1, 1, 3, 5, 6, 1, 1, 1, 1, 1, 1, 4, 1, 6, 4, 1, 2, 4, 5, 5,
  4, 1, 17, 32, 3, 2, 817, 52, 1814, 124, 2, 103, 6, 4, 3, 2, 12, 38, 1, 1, 5, 1, 30994, 46, 18, 28, 134, 78, 1, 23,
  3, 4, 1, 62, 2, 2, 1, 1, 1, 8, 24, 2, 3, 1, 821, 43, 5, 9, 7, 80, 20288, 7, 12, 5, 1033, 26, 6, 26, 1189, 80, 96,
  36, 4, 36, 116, 11, 1, 15, 1, 7, 1, 2, 1, 11, 1, 15, 1, 7, 1, 2, 1731, 51, 13, 51, 93, 22, 10, 22, 2842, 64, 21856,
  64, 25984, 85, 1, 71, 1, 2, 2, 1, 2, 2, 2, 4, 1, 12, 1, 1, 1, 7, 1, 65, 1, 4, 2, 8, 1, 7, 1, 28, 1, 4, 1, 5, 1, 1,
  3, 7, 1, 340, 2, 25, 1, 25, 1, 31, 1, 25, 1, 31, 1, 25, 1, 31, 1, 25, 1, 31, 1, 25, 1, 8, 1844, 10, 1, 20, 273, 62,
  2194, 68, 2028, 26, 6, 26, 6, 26]

/-- The `Case_Ignorable` property, in the same way. -/
def caseIgnorableRuns : List Nat := [
  39, 1, 6, 1, 11, 1, 35, 1, 1, 1, 71, 1, 4, 1, 1, 1, 4, 1, 2, 2, 503, 192, 4, 2, 4, 1, 9, 2, 1, 1, 251, 7, 207, 1, 5,
  1, 49, 45, 1, 1, 1, 2, 1, 2, 1, 1, 44, 1, 11, 6, 10, 11, 1, 1, 35, 1, 10, 21, 16, 1, 101, 8, 1, 10, 1, 4, 33, 1, 1,
  1, 30, 27, 91, 11, 58, 11, 4, 1, 2, 1, 24, 24, 43, 3, 44, 1, 7, 2, 5, 9, 41, 58, 55, 1, 1, 1, 4, 8, 4, 1, 3, 7, 10,
  2, 13, 1, 15, 1, 58, 1, 4, 4, 8, 1, 20, 2, 26, 1, 2, 2, 57, 1, 4, 2, 4, 2, 2, 3, 3, 1, 30, 2, 3, 1, 11, 2, 57, 1, 4,
  5, 1, 2, 4, 1, 20, 2, 22, 6, 1, 1, 58, 1, 2, 1, 1, 4, 8, 1, 7, 2, 11, 2, 30, 1, 61, 1, 12, 1, 50, 1, 3, 1, 55, 1, 1,
  3, 5, 3, 1, 4, 7, 2, 11, 2, 29, 1, 58, 1, 2, 1, 6, 1, 5, 2, 20, 2, 28, 2, 57, 2, 4, 4, 8, 1, 20, 2, 29, 1, 72, 1, 7,
  3, 1, 1, 90, 1, 2, 7, 11, 9, 98, 1, 2, 9, 9, 1, 1, 7, 73, 2, 27, 1, 1, 1, 1, 1, 55, 14, 1, 5, 1, 2, 5, 11, 1, 36, 9,
  1, 102, 4, 1, 6, 1, 2, 2, 2, 25, 2, 4, 3, 16, 4, 13, 1, 2, 2, 6, 1, 15, 1, 94, 1, 608, 3, 946, 3, 29, 2, 30, 2, 30,
  2, 64, 2, 1, 7, 8, 1, 2, 11, 3, 1, 5, 1, 45, 5, 51, 1, 65, 2, 34, 1, 118, 3, 4, 2, 9, 1, 6, 3, 219, 2, 2, 1, 58, 1,
  1, 7, 1, 1, 1, 1, 2, 8, 6, 10, 2, 1, 39, 1, 8, 31, 49, 4, 48, 1, 1, 5, 1, 1, 5, 1, 40, 9, 12, 2, 32, 4, 2, 2, 1, 3,
  56, 1, 1, 2, 3, 1, 1, 3, 58, 8, 2, 2, 64, 6, 82, 3, 1, 13, 1, 7, 4, 1, 6, 1, 3, 2, 50, 63, 13, 1, 34, 101, 445, 1,
  1, 3, 11, 3, 13, 3, 13, 3, 13, 2, 12, 5, 8, 2, 10, 1, 2, 1, 2, 5, 49, 5, 1, 10, 1, 1, 13, 1, 16, 13, 51, 33, 2955,
  2, 113, 3, 125, 1, 15, 1, 96, 32, 47, 1, 469, 1, 36, 4, 3, 5, 5, 1, 93, 6, 93, 3, 28438, 1, 1250, 6, 270, 1, 98, 4,
  1, 10, 1, 1, 28, 4, 80, 2, 14, 34, 78, 1, 23, 3, 103, 3, 3, 2, 8, 1, 3, 1, 4, 1, 25, 2, 5, 1, 151, 2, 26, 18, 13, 1,
  38, 8, 25, 11, 46, 3, 48, 1, 2, 4, 2, 2, 17, 1, 21, 2, 66, 6, 2, 2, 2, 2, 12, 1, 8, 1, 35, 1, 11, 1, 51, 1, 1, 3, 2,
  2, 5, 2, 1, 1, 27, 1, 14, 2, 5, 2, 1, 1, 100, 5, 9, 3, 121, 1, 2, 1, 4, 1, 20272, 1, 147, 17, 573, 16, 3, 1, 12, 16,
  34, 1, 2, 1, 169, 1, 7, 1, 6, 1, 11, 1, 35, 1, 1, 1, 47, 1, 45, 2, 67, 1, 21, 3, 513, 1, 226, 1, 149, 5, 1029, 6, 1,
  42, 1, 9, 582, 3, 1, 2, 5, 4, 40, 3, 4, 1, 165, 2, 573, 4, 38, 1, 26, 5, 1, 1, 315, 2, 79, 4, 70, 11, 49, 4, 123, 1,
  54, 15, 41, 1, 2, 2, 10, 3, 49, 4, 2, 2, 2, 1, 4, 1, 10, 1, 50, 3, 36, 5, 1, 8, 62, 1, 12, 2, 52, 9, 10, 4, 2, 1,
  95, 3, 2, 1, 1, 2, 6, 1, 2, 1, 157, 1, 3, 8, 21, 2, 57, 2, 3, 1, 37, 7, 3, 5, 70, 6, 13, 1, 1, 1, 1, 1, 14, 2, 85,
  8, 2, 3, 1, 1, 23, 1, 84, 6, 1, 1, 4, 2, 1, 2, 238, 4, 6, 2, 1, 2, 27, 2, 85, 8, 2, 1, 1, 2, 106, 1, 1, 1, 2, 6, 1,
  1, 101, 3, 2, 4, 1, 5, 259, 9, 1, 2, 256, 2, 1, 1, 4, 1, 144, 4, 2, 2, 4, 1, 32, 10, 40, 6, 2, 4, 8, 1, 9, 6, 2, 3,
  46, 13, 1, 2, 406, 7, 1, 6, 1, 1, 82, 22, 2, 7, 1, 2, 1, 2, 122, 6, 3, 1, 1, 2, 1, 7, 1, 1, 72, 2, 3, 1, 1, 1, 347,
  2, 11, 2, 52, 5, 5, 1, 1, 1, 23, 1, 5333, 17, 6, 15, 11464, 12, 3, 3, 2496, 5, 59, 7, 9, 4, 508, 3, 40, 2, 482, 1,
  63, 17, 64, 2, 1, 2, 16395, 4, 1, 7, 1, 2, 3230, 2, 1, 4, 4700, 46, 2, 23, 544, 3, 9, 16, 2, 7, 30, 4, 148, 3, 1979,
  55, 4, 50, 8, 1, 14, 1, 22, 5, 1, 15, 1360, 7, 1, 17, 2, 7, 1, 2, 1, 5, 5, 62, 33, 1, 160, 14, 368, 1, 61, 4, 507,
  5, 254, 2, 736, 7, 109, 8, 2735, 5, 789505, 1, 30, 96, 128, 240]

/-- Is a character in a run with the property? The first run is one with the property `has`. -/
def inRunsFrom (has : Bool) : List Nat → Nat → Bool
  | [], _ => false
  | run :: rest, n => if n < run then has else inRunsFrom (!has) rest (n - run)

def inRuns (runs : List Nat) (c : Char) : Bool := inRunsFrom false runs c.toNat

/-- The first character that is not case-ignorable is there and is cased. -/
def caseIgnorableThenCased (cs : List Char) : Bool :=
  match cs.dropWhile (inRuns caseIgnorableRuns) with
  | [] => false
  | c :: _ => inRuns casedRuns c

/-- Lower case a text of which `before`, read backwards, comes before. -/
def lowerFrom (before : List Char) : List Char → List Char
  | [] => []
  | c :: after =>
    (if c.toNat = 0x3a3 then
      -- A capital sigma is final when a letter comes before it in the word and none after.
      if caseIgnorableThenCased before && !caseIgnorableThenCased after then [Char.ofNat 0x3c2]
      else [Char.ofNat 0x3c3]
    else lowerChar c) ++ lowerFrom (c :: before) after

/-- `str::to_lowercase`. -/
def toLowercase (s : String) : String := String.ofList (lowerFrom [] s.toList)

/-! ## Upper casing -/

/-- Simple uppercase mappings: the pairs the other way round, and those that do not lead back. -/
def upperRanges : List (Nat × Nat × Nat × Int) :=
  letterPairs.map (fun r => ((r.1 + r.2.2.2).toNat, (r.2.1 + r.2.2.2).toNat, r.2.2.1, -r.2.2.2)) ++ [
  (0xb5, 0xb5, 1, 743), (0x131, 0x131, 1, -232), (0x17f, 0x17f, 1, -300), (0x1c5, 0x1c5, 1, -1),
  (0x1c8, 0x1c8, 1, -1), (0x1cb, 0x1cb, 1, -1), (0x1f2, 0x1f2, 1, -1), (0x345, 0x345, 1, 84), (0x3c2, 0x3c2, 1, -31),
  (0x3d0, 0x3d0, 1, -62), (0x3d1, 0x3d1, 1, -57), (0x3d5, 0x3d5, 1, -47), (0x3d6, 0x3d6, 1, -54),
  (0x3f0, 0x3f0, 1, -86), (0x3f1, 0x3f1, 1, -80), (0x3f5, 0x3f5, 1, -96), (0x1c80, 0x1c80, 1, -6254),
  (0x1c81, 0x1c81, 1, -6253), (0x1c82, 0x1c82, 1, -6244), (0x1c83, 0x1c84, 1, -6242), (0x1c85, 0x1c85, 1, -6243),
  (0x1c86, 0x1c86, 1, -6236), (0x1c87, 0x1c87, 1, -6181), (0x1c88, 0x1c88, 1, 35266), (0x1e9b, 0x1e9b, 1, -59),
  (0x1fbe, 0x1fbe, 1, -7205)]

/-- Uppercase mappings to several characters. The Greek letters with an iota below are sixteen in a row, over eight
    capitals twice. -/
def upperSpecial : List (Nat × List Nat) := [
  (0xdf, [0x53, 0x53]), (0x149, [0x2bc, 0x4e]), (0x1f0, [0x4a, 0x30c]), (0x390, [0x399, 0x308, 0x301]),
  (0x3b0, [0x3a5, 0x308, 0x301]), (0x587, [0x535, 0x552]), (0x1e96, [0x48, 0x331]), (0x1e97, [0x54, 0x308]),
  (0x1e98, [0x57, 0x30a]), (0x1e99, [0x59, 0x30a]), (0x1e9a, [0x41, 0x2be]), (0x1f50, [0x3a5, 0x313]),
  (0x1f52, [0x3a5, 0x313, 0x300]), (0x1f54, [0x3a5, 0x313, 0x301]), (0x1f56, [0x3a5, 0x313, 0x342]),
  (0x1fb2, [0x1fba, 0x399]), (0x1fb3, [0x391, 0x399]), (0x1fb4, [0x386, 0x399]), (0x1fb6, [0x391, 0x342]),
  (0x1fb7, [0x391, 0x342, 0x399]), (0x1fbc, [0x391, 0x399]), (0x1fc2, [0x1fca, 0x399]), (0x1fc3, [0x397, 0x399]),
  (0x1fc4, [0x389, 0x399]), (0x1fc6, [0x397, 0x342]), (0x1fc7, [0x397, 0x342, 0x399]), (0x1fcc, [0x397, 0x399]),
  (0x1fd2, [0x399, 0x308, 0x300]), (0x1fd3, [0x399, 0x308, 0x301]), (0x1fd6, [0x399, 0x342]),
  (0x1fd7, [0x399, 0x308, 0x342]), (0x1fe2, [0x3a5, 0x308, 0x300]), (0x1fe3, [0x3a5, 0x308, 0x301]),
  (0x1fe4, [0x3a1, 0x313]), (0x1fe6, [0x3a5, 0x342]), (0x1fe7, [0x3a5, 0x308, 0x342]), (0x1ff2, [0x1ffa, 0x399]),
  (0x1ff3, [0x3a9, 0x399]), (0x1ff4, [0x38f, 0x399]), (0x1ff6, [0x3a9, 0x342]), (0x1ff7, [0x3a9, 0x342, 0x399]),
  (0x1ffc, [0x3a9, 0x399]), (0xfb00, [0x46, 0x46]), (0xfb01, [0x46, 0x49]), (0xfb02, [0x46, 0x4c]),
  (0xfb03, [0x46, 0x46, 0x49]), (0xfb04, [0x46, 0x46, 0x4c]), (0xfb05, [0x53, 0x54]), (0xfb06, [0x53, 0x54]),
  (0xfb13, [0x544, 0x546]), (0xfb14, [0x544, 0x535]), (0xfb15, [0x544, 0x53b]), (0xfb16, [0x54e, 0x546]),
  (0xfb17, [0x544, 0x53d])] ++
  [(0x1f80, 0x1f08), (0x1f90, 0x1f28), (0x1fa0, 0x1f68)].flatMap fun (first, capital) =>
    (List.range 16).map fun i => (first + i, [capital + i % 8, 0x399])

/-- `char::to_uppercase`. -/
def upperChar (c : Char) : List Char :=
  match upperSpecial.find? fun r => r.1 == c.toNat with
  | some r => r.2.map Char.ofNat
  | none =>
    match upperRanges.find? fun r =>
        r.1 ≤ c.toNat && c.toNat ≤ r.2.1 && (c.toNat - r.1) % r.2.2.1 == 0 with
    | some r => [Char.ofNat (Int.toNat (c.toNat + r.2.2.2))]
    | none => [c]

/-- `str::to_uppercase`. -/
def toUppercase (s : String) : String := String.ofList (s.toList.flatMap upperChar)

/-! ## `str::to_lowercase` on parts of a text

An ASCII character is lowered alone. A character that ends words (`Divides`) hides both sides from each other, so that
the text is lowered in two parts (`lowerFrom_divide`). -/

/-! ## ASCII characters -/

theorem lowerChar_table : ∀ n < 128, lowerChar (Char.ofNat n) = [(Char.ofNat n).toLower] := by
  decide +kernel

variable {c : Char}

theorem lowerChar_ascii (h : c.toNat < 128) : lowerChar c = [c.toLower] := by
  have htable := lowerChar_table c.toNat h
  rw [Char.ofNat_toNat] at htable
  exact htable

/-- All characters are in the ASCII range. -/
def Ascii (w : List Char) : Prop := ∀ c ∈ w, c.toNat < 128

instance : DecidablePred Ascii := fun w => List.decidableBAll (fun c : Char => c.toNat < 128) w

theorem ascii_of_toLower (h : c.toLower.toNat < 128) : c.toNat < 128 := by
  unfold Char.toLower at h
  split at h
  next hupper =>
    have hle : c.val.toNat ≤ 'Z'.val.toNat := hupper.2
    exact Nat.lt_of_le_of_lt hle (by decide)
  next => exact h

theorem toNat_ofNat {n : Nat} (h : Char.ofNat n = c) (hc : c.toNat ≠ 0) : n = c.toNat := by
  subst h
  by_cases hvalid : n.isValidChar
  · unfold Char.ofNat
    rw [dif_pos hvalid]
    rfl
  · refine absurd ?_ hc
    unfold Char.ofNat
    rw [dif_neg hvalid]
    rfl

/-- No character is lowered to a capital letter. -/
theorem lowerRanges_above : ∀ r ∈ lowerRanges, (0x5a : Int) < r.1 + r.2.2.2 := by
  decide +kernel

theorem lowerChar_not_capital (c : Char) : 'R' ∉ lowerChar c := by
  by_cases hc : c = 'R'
  · subst hc
    decide
  · unfold lowerChar
    split
    · decide
    · split
      next r hr =>
        intro h
        have hrange := List.find?_some hr
        have habove := lowerRanges_above r (List.mem_of_find?_eq_some hr)
        simp only [Bool.and_eq_true, decide_eq_true_eq] at hrange
        have hnat := toNat_ofNat (List.mem_singleton.mp h).symm (by decide)
        have hR : 'R'.toNat = 82 := rfl
        omega
      next => exact fun h => hc (List.mem_singleton.mp h).symm

theorem lowerFrom_ascii_cons (h : c.toNat < 128) (before after : List Char) :
    lowerFrom before (c :: after) = c.toLower :: lowerFrom (c :: before) after := by
  rw [lowerFrom, if_neg (by omega), lowerChar_ascii h]
  rfl

variable {w : List Char}

theorem lowerFrom_ascii_append (h : Ascii w) (before after : List Char) :
    lowerFrom before (w ++ after) = w.map Char.toLower ++ lowerFrom (w.reverse ++ before) after := by
  induction w generalizing before with
  | nil => rfl
  | cons c w ih =>
    rw [List.cons_append, lowerFrom_ascii_cons (h c List.mem_cons_self), ih fun d hd => h d (List.mem_cons_of_mem c hd)]
    simp

/-- A word in ASCII stays in the text, lowered. -/
theorem infix_lowerFrom {text : List Char} (hw : Ascii w) (h : w <:+: text) (before : List Char) :
    w.map Char.toLower <:+: lowerFrom before text := by
  obtain ⟨x, y, rfl⟩ := h
  rw [List.append_assoc]
  induction x generalizing before with
  | nil =>
    rw [List.nil_append, lowerFrom_ascii_append hw]
    exact (List.prefix_append _ _).isInfix
  | cons c x ih =>
    unfold lowerFrom
    exact (ih (c :: before)).trans (List.suffix_append _ _).isInfix

/-! ## Characters between words -/

/-- The character is neither cased nor case-ignorable, and stays as it is. -/
structure Divides (c : Char) : Prop where
  ascii : c.toNat < 128
  lower : c.toLower = c
  notCased : inRuns casedRuns c = false
  notIgnorable : inRuns caseIgnorableRuns c = false

variable {d : Char}

theorem caseIgnorableThenCased_divide (hd : Divides d) (x y : List Char) :
    caseIgnorableThenCased (x ++ d :: y) = caseIgnorableThenCased x := by
  unfold caseIgnorableThenCased
  induction x with
  | nil =>
    rw [List.nil_append, List.dropWhile_cons_of_neg (by rw [hd.notIgnorable]; exact Bool.false_ne_true)]
    exact hd.notCased
  | cons c x ih =>
    rw [List.cons_append]
    by_cases hc : inRuns caseIgnorableRuns c = true
    · rw [List.dropWhile_cons_of_pos hc, List.dropWhile_cons_of_pos hc]
      exact ih
    · rw [List.dropWhile_cons_of_neg hc, List.dropWhile_cons_of_neg hc]

/-- What is lowered behind a divider does not depend on what is before it. -/
theorem lowerFrom_behind (hd : Divides d) (x before text : List Char) :
    lowerFrom (x ++ d :: before) text = lowerFrom x text := by
  induction text generalizing x with
  | nil => rfl
  | cons c text ih =>
    unfold lowerFrom
    rw [caseIgnorableThenCased_divide hd, ← List.cons_append, ih]

/-- **A divider parts a text**: both sides are lowered alone. -/
theorem lowerFrom_divide (hd : Divides d) (before x y : List Char) :
    lowerFrom before (x ++ d :: y) = lowerFrom before x ++ d :: lowerFrom [] y := by
  induction x generalizing before with
  | nil =>
    rw [List.nil_append, lowerFrom_ascii_cons hd.ascii, hd.lower, lowerFrom, ← List.nil_append (d :: before),
      lowerFrom_behind hd]
    rfl
  | cons c x ih => rw [List.cons_append, lowerFrom, lowerFrom, caseIgnorableThenCased_divide hd, ih, List.append_assoc]

/-- So blanks and the like can be put behind it. -/
theorem lowerFrom_dividers {v : List Char} (hv : ∀ c ∈ v, Divides c) (text : List Char) :
    lowerFrom [] (v ++ text) = v ++ lowerFrom [] text := by
  induction v with
  | nil => rfl
  | cons d v ih =>
    have hdivide := lowerFrom_divide (hv d List.mem_cons_self) [] [] (v ++ text)
    rw [List.nil_append] at hdivide
    rw [List.cons_append, hdivide, ih fun c hc => hv c (List.mem_cons_of_mem d hc)]
    rfl

end Freeclawdia.Rust
