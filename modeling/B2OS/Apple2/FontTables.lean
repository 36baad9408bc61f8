import B2OS.Kernel.MallocStack
import B2OS.Apple2.FontBitmapLaw
import B2OS.Apple2.Render

/-!
# The Tables of the Fonts

This module embeds `af_Create` of `Apple2/AppleFont.c` with the two bitmaps that the emulator is
built with, and what `ad_Create` of `Apple2/AppleDevice.c` does to the heap. `af_Create` has each
bitmap unpacked into a block of the heap, cuts it into glyphs, and gives the block back.
`ad_Create` then asks for the pixels of the screen, and clears them.

The heap is the one that `k_init_mem` leaves, which nobody has asked for anything before.

## Main results

* `cutGlyphs_apply`: what is cut out of an image.
* `fresh_read`: a bitmap is unpacked, and its block is given back.
* `adCreate_tables`: the tables hold the glyphs of the bitmaps, the heap holds the screen.
-/

namespace B2OS.Apple2

open ByteMemory BlockChain Kernel

def FONT_NUM : ℕ := 128

/-- The file of the normal font. -/
def normalfont : List (BitVec 8) :=
  [0x42, 0x4D, 0xBE, 0x03, 0x00, 0x00, 0x00, 0x00, 0x00, 0x00, 0x3E, 0x00, 0x00, 0x00, 0x28, 0x00,
   0x00, 0x00, 0x80, 0x03, 0x00, 0x00, 0x08, 0x00, 0x00, 0x00, 0x01, 0x00, 0x01, 0x00, 0x00, 0x00,
   0x00, 0x00, 0x80, 0x03, 0x00, 0x00, 0x00, 0x00, 0x00, 0x00, 0x00, 0x00, 0x00, 0x00, 0x00, 0x00,
   0x00, 0x00, 0x00, 0x00, 0x00, 0x00, 0x00, 0x00, 0x00, 0x00, 0xFF, 0xFF, 0xFF, 0x00, 0x6C, 0xD9,
   0x0F, 0xF0, 0x1F, 0xD0, 0x07, 0x00, 0xA8, 0x40, 0x80, 0x04, 0x3F, 0x7B, 0xDE, 0x04, 0x08, 0x0F,
   0xE0, 0x2A, 0xAA, 0x00, 0x00, 0x08, 0x0F, 0xE0, 0x3F, 0xC0, 0x00, 0x00, 0x00, 0x00, 0x00, 0x00,
   0x00, 0x00, 0x00, 0x00, 0x00, 0x00, 0x00, 0x00, 0x00, 0x00, 0x00, 0x00, 0x00, 0x00, 0x00, 0x00,
   0x00, 0x00, 0x00, 0x00, 0x00, 0x00, 0x00, 0x00, 0x00, 0x00, 0x00, 0x00, 0x00, 0x00, 0x00, 0x00,
   0x00, 0x00, 0x00, 0x00, 0x00, 0x00, 0x00, 0x00, 0x00, 0x00, 0x00, 0x00, 0x00, 0x00, 0x00, 0x00,
   0x00, 0x7F, 0x00, 0x00, 0x00, 0x00, 0x00, 0x00, 0x1C, 0x00, 0x00, 0xC0, 0x00, 0x00, 0x00, 0x00,
   0x40, 0x08, 0x00, 0x00, 0x00, 0x00, 0x00, 0x00, 0x70, 0x00, 0x01, 0x00, 0x00, 0x00, 0x7E, 0xA5,
   0xB2, 0xA2, 0x1B, 0xFF, 0x08, 0x10, 0x00, 0xE0, 0x80, 0x0C, 0x3F, 0x04, 0x20, 0x24, 0x48, 0x08,
   0x02, 0x15, 0x55, 0xFF, 0xFC, 0x08, 0x80, 0x05, 0x00, 0xC0, 0x00, 0x20, 0x01, 0x41, 0x01, 0x8D,
   0x00, 0x10, 0x20, 0x40, 0x02, 0x00, 0x04, 0x00, 0x38, 0x71, 0xF1, 0xC0, 0x87, 0x0E, 0x10, 0x38,
   0xE0, 0x01, 0x00, 0x80, 0x08, 0x08, 0x3C, 0x89, 0xE1, 0xC7, 0x8F, 0x90, 0x1E, 0x44, 0x70, 0xE2,
   0x27, 0xC8, 0x91, 0x1C, 0x40, 0x69, 0x11, 0xC1, 0x07, 0x04, 0x22, 0x44, 0x21, 0xF3, 0xE0, 0x0F,
   0x80, 0x00, 0x00, 0x79, 0xE1, 0xE3, 0xC7, 0x88, 0x02, 0x44, 0x71, 0x22, 0x23, 0x88, 0x91, 0x1C,
   0x40, 0x09, 0x03, 0xC1, 0x86, 0x84, 0x36, 0x44, 0x09, 0xF0, 0xE1, 0x0E, 0x00, 0x00, 0xFD, 0x09,
   0xE1, 0x42, 0x1B, 0xC3, 0x18, 0x20, 0x01, 0x50, 0x80, 0x1F, 0xFF, 0x0C, 0x30, 0x70, 0x40, 0x08,
   0x01, 0x2A, 0xAA, 0x80, 0x04, 0x09, 0xC0, 0x05, 0x00, 0xC0, 0x00, 0x00, 0x01, 0x47, 0x89, 0x92,
   0x00, 0x20, 0x11, 0x50, 0x81, 0x00, 0x00, 0x20, 0x44, 0x21, 0x02, 0x20, 0x88, 0x91, 0x10, 0x44,
   0x10, 0x00, 0x81, 0x00, 0x04, 0x00, 0x40, 0x89, 0x12, 0x24, 0x48, 0x10, 0x22, 0x44, 0x21, 0x12,
   0x44, 0x08, 0x91, 0x22, 0x40, 0x91, 0x22, 0x21, 0x08, 0x8A, 0x36, 0x44, 0x21, 0x03, 0x00, 0x41,
   0x80, 0x00, 0x00, 0x89, 0x12, 0x04, 0x48, 0x08, 0x1E, 0x44, 0x20, 0x22, 0x41, 0x0A, 0x91, 0x22,
   0x78, 0x79, 0x00, 0x22, 0x49, 0x8A, 0x2A, 0x28, 0x78, 0x81, 0x81, 0x03, 0x00, 0x2A, 0xFD, 0x09,
   0xC0, 0x85, 0x15, 0xE7, 0xF0, 0x40, 0x02, 0x48, 0x80, 0x0C, 0x7F, 0x1C, 0x38, 0xF9, 0xF8, 0x08,
   0x00, 0x95, 0x55, 0x80, 0x04, 0x0B, 0xE0, 0x1D, 0xCC, 0xC0, 0x00, 0x20, 0x03, 0xE1, 0x44, 0x15,
   0x00, 0x40, 0x08, 0xE0, 0x81, 0x00, 0x00, 0x10, 0x64, 0x20, 0x80, 0x27, 0xC0, 0x91, 0x10, 0x44,
   0x08, 0x40, 0x82, 0x0F, 0x82, 0x08, 0x58, 0xF9, 0x12, 0x04, 0x48, 0x10, 0x26, 0x44, 0x20, 0x12,
   0x84, 0x08, 0x93, 0x22, 0x40, 0xA9, 0x40, 0x21, 0x08, 0x91, 0x2A, 0x28, 0x20, 0x83, 0x00, 0x81,
   0x91, 0x00, 0x00, 0x79, 0x12, 0x04, 0x4F, 0x88, 0x22, 0x44, 0x20, 0x23, 0x81, 0x0A, 0x91, 0x22,
   0x44, 0x89, 0x01, 0xC2, 0x08, 0x91, 0x2A, 0x10, 0x88, 0x41, 0x81, 0x03, 0x00, 0x14, 0xFF, 0x05,
   0x80, 0x88, 0x86, 0xE3, 0x00, 0xFE, 0x00, 0x44, 0x90, 0x04, 0x7F, 0x3F, 0xFD, 0xFD, 0xF7, 0xF8,
   0x1F, 0xEA, 0xAA, 0x80, 0x04, 0x0F, 0xF0, 0x00, 0x0C, 0xC0, 0x00, 0x20, 0x01, 0x43, 0x82, 0x08,
   0x00, 0x40, 0x08, 0x43, 0xE0, 0x0F, 0x80, 0x08, 0x54, 0x20, 0x60, 0xC4, 0x80, 0x9E, 0x08, 0x38,
   0x78, 0x00, 0x04, 0x00, 0x01, 0x08, 0x5C, 0x89, 0xE2, 0x04, 0x4F, 0x1E, 0x20, 0x7C, 0x20, 0x13,
   0x04, 0x0A, 0x95, 0x22, 0x78, 0x89, 0xE1, 0xC1, 0x08, 0x91, 0x2A, 0x10, 0x20, 0x43, 0x01, 0x01,
   0x8A, 0x00, 0x00, 0x09, 0x12, 0x04, 0x48, 0x9E, 0x22, 0x44, 0x20, 0x22, 0x41, 0x0A, 0x91, 0x22,
   0x44, 0x89, 0x82, 0x02, 0x08, 0x91, 0x22, 0x28, 0x88, 0x23, 0x01, 0x01, 0x80, 0x2A, 0x6C, 0xD9,
   0x01, 0x40, 0x5F, 0x5F, 0xF0, 0x40, 0x00, 0x42, 0xA0, 0x00, 0x7F, 0x1C, 0x38, 0x20, 0xE0, 0x08,
   0x00, 0x95, 0x55, 0x83, 0xF8, 0x0B, 0xE0, 0x1D, 0xC0, 0xC0, 0x00, 0x20, 0xA3, 0xE5, 0x01, 0x14,
   0x08, 0x40, 0x08, 0xE0, 0x80, 0x00, 0x00, 0x04, 0x4C, 0x20, 0x10, 0x42, 0x8F, 0x10, 0x04, 0x44,
   0x88, 0x40, 0x82, 0x0F, 0x82, 0x04, 0x54, 0x89, 0x12, 0x04, 0x48, 0x10, 0x20, 0x44, 0x20, 0x12,
   0x84, 0x0A, 0x99, 0x22, 0x44, 0x89, 0x12, 0x01, 0x08, 0x91, 0x22, 0x28, 0x50, 0x23, 0x02, 0x01,
   0x84, 0x00, 0x00, 0x71, 0xE1, 0xE3, 0xC7, 0x08, 0x1C, 0x78, 0x60, 0x62, 0x21, 0x0D, 0x9E, 0x1C,
   0x78, 0x79, 0x71, 0xE7, 0x88, 0x91, 0x22, 0x44, 0x89, 0xF1, 0x81, 0x03, 0x00, 0x14, 0x10, 0x20,
   0x02, 0x20, 0x3F, 0x81, 0x8C, 0x20, 0x00, 0x41, 0xC0, 0x00, 0x7F, 0x0C, 0x30, 0x24, 0x48, 0x08,
   0x01, 0x2A, 0xAA, 0x7C, 0x00, 0x09, 0xC0, 0x05, 0x00, 0xC0, 0x00, 0x20, 0xA1, 0x43, 0xCC, 0x94,
   0x08, 0x20, 0x11, 0x50, 0x80, 0x00, 0x00, 0x02, 0x44, 0x61, 0x10, 0x21, 0x88, 0x08, 0x02, 0x44,
   0x88, 0x00, 0x01, 0x00, 0x04, 0x22, 0x44, 0x51, 0x12, 0x24, 0x48, 0x10, 0x20, 0x44, 0x20, 0x12,
   0x44, 0x0D, 0x91, 0x22, 0x44, 0x89, 0x12, 0x21, 0x08, 0x91, 0x22, 0x44, 0x88, 0x13, 0x04, 0x01,
   0x80, 0x00, 0x00, 0x01, 0x00, 0x00, 0x40, 0x09, 0x00, 0x40, 0x00, 0x02, 0x01, 0x00, 0x00, 0x00,
   0x00, 0x00, 0x00, 0x02, 0x00, 0x00, 0x00, 0x00, 0x00, 0x01, 0x81, 0x03, 0x16, 0x2A, 0x08, 0x10,
   0x07, 0xF0, 0x1F, 0xC3, 0x80, 0x10, 0x00, 0x40, 0x8F, 0xE0, 0x7F, 0x64, 0x26, 0x04, 0x08, 0x08,
   0x02, 0x15, 0x55, 0x00, 0x00, 0x08, 0x8F, 0xE5, 0x3F, 0xC0, 0x00, 0x20, 0xA1, 0x41, 0x0C, 0x08,
   0x08, 0x10, 0x20, 0x40, 0x00, 0x00, 0x00, 0x00, 0x38, 0x20, 0xE3, 0xE0, 0x8F, 0x87, 0x3E, 0x38,
   0x70, 0x00, 0x00, 0x80, 0x08, 0x1C, 0x38, 0x21, 0xE1, 0xC7, 0x8F, 0x9F, 0x1E, 0x44, 0x70, 0x12,
   0x24, 0x08, 0x91, 0x1C, 0x78, 0x71, 0xE1, 0xC7, 0xC8, 0x91, 0x22, 0x44, 0x89, 0xF3, 0xE0, 0x0F,
   0x80, 0x00, 0x00, 0x01, 0x00, 0x00, 0x40, 0x06, 0x00, 0x40, 0x20, 0x22, 0x03, 0x00, 0x00, 0x00,
   0x00, 0x00, 0x00, 0x02, 0x00, 0x00, 0x00, 0x00, 0x00, 0x00, 0xE1, 0x0E, 0x0D, 0x00]

/-- The file of the inverse font. -/
def inversefont : List (BitVec 8) :=
  [0x42, 0x4D, 0xBE, 0x03, 0x00, 0x00, 0x00, 0x00, 0x00, 0x00, 0x3E, 0x00, 0x00, 0x00, 0x28, 0x00,
   0x00, 0x00, 0x80, 0x03, 0x00, 0x00, 0x08, 0x00, 0x00, 0x00, 0x01, 0x00, 0x01, 0x00, 0x00, 0x00,
   0x00, 0x00, 0x80, 0x03, 0x00, 0x00, 0x13, 0x0B, 0x00, 0x00, 0x13, 0x0B, 0x00, 0x00, 0x00, 0x00,
   0x00, 0x00, 0x00, 0x00, 0x00, 0x00, 0x00, 0x00, 0x00, 0x00, 0xFF, 0xFF, 0xFF, 0x00, 0x93, 0x26,
   0xF0, 0x0F, 0xE0, 0x2F, 0xF8, 0xFF, 0x57, 0xBF, 0x7F, 0xFB, 0xC0, 0x84, 0x21, 0xFB, 0xF7, 0xF0,
   0x1F, 0xD5, 0x55, 0xFF, 0xFF, 0xF7, 0xF0, 0x1F, 0xC0, 0x3F, 0xFF, 0xFF, 0xFF, 0xFF, 0xFF, 0xFF,
   0xFF, 0xFF, 0xFF, 0xFF, 0xFF, 0xFF, 0xFF, 0xFF, 0xFF, 0xFF, 0xFF, 0xFF, 0xFF, 0xFF, 0xFF, 0xFF,
   0xFF, 0xFF, 0xFF, 0xFF, 0xFF, 0xFF, 0xFF, 0xFF, 0xFF, 0xFF, 0xFF, 0xFF, 0xFF, 0xFF, 0xFF, 0xFF,
   0xFF, 0xFF, 0xFF, 0xFF, 0xFF, 0xFF, 0xFF, 0xFF, 0xFF, 0xFF, 0xFF, 0xFF, 0xFF, 0xFF, 0xFF, 0xFF,
   0xFF, 0x80, 0xFF, 0xFF, 0xFF, 0xFF, 0xFF, 0xFF, 0xE3, 0xFF, 0xFF, 0x3F, 0xFF, 0xFF, 0xFF, 0xFF,
   0xBF, 0xF7, 0xFF, 0xFF, 0xFF, 0xFF, 0xFF, 0xFF, 0x8F, 0xFF, 0xFE, 0xFF, 0xFF, 0xFF, 0x81, 0x5A,
   0x4D, 0x5D, 0xE4, 0x00, 0xF7, 0xEF, 0xFF, 0x1F, 0x7F, 0xF3, 0xC0, 0xFB, 0xDF, 0xDB, 0xB7, 0xF7,
   0xFD, 0xEA, 0xAA, 0x00, 0x03, 0xF7, 0x7F, 0xFA, 0xFF, 0x3F, 0xFF, 0xDF, 0xFE, 0xBE, 0xFE, 0x72,
   0xFF, 0xEF, 0xDF, 0xBF, 0xFD, 0xFF, 0xFB, 0xFF, 0xC7, 0x8E, 0x0E, 0x3F, 0x78, 0xF1, 0xEF, 0xC7,
   0x1F, 0xFE, 0xFF, 0x7F, 0xF7, 0xF7, 0xC3, 0x76, 0x1E, 0x38, 0x70, 0x6F, 0xE1, 0xBB, 0x8F, 0x1D,
   0xD8, 0x37, 0x6E, 0xE3, 0xBF, 0x96, 0xEE, 0x3E, 0xF8, 0xFB, 0xDD, 0xBB, 0xDE, 0x0C, 0x1F, 0xF0,
   0x7F, 0xFF, 0xFF, 0x86, 0x1E, 0x1C, 0x38, 0x77, 0xFD, 0xBB, 0x8E, 0xDD, 0xDC, 0x77, 0x6E, 0xE3,
   0xBF, 0xF6, 0xFC, 0x3E, 0x79, 0x7B, 0xC9, 0xBB, 0xF6, 0x0F, 0x1E, 0xF1, 0xFF, 0xFF, 0x02, 0xF6,
   0x1E, 0xBD, 0xE4, 0x3C, 0xE7, 0xDF, 0xFE, 0xAF, 0x7F, 0xE0, 0x00, 0xF3, 0xCF, 0x8F, 0xBF, 0xF7,
   0xFE, 0xD5, 0x55, 0x7F, 0xFB, 0xF6, 0x3F, 0xFA, 0xFF, 0x3F, 0xFF, 0xFF, 0xFE, 0xB8, 0x76, 0x6D,
   0xFF, 0xDF, 0xEE, 0xAF, 0x7E, 0xFF, 0xFF, 0xDF, 0xBB, 0xDE, 0xFD, 0xDF, 0x77, 0x6E, 0xEF, 0xBB,
   0xEF, 0xFF, 0x7E, 0xFF, 0xFB, 0xFF, 0xBF, 0x76, 0xED, 0xDB, 0xB7, 0xEF, 0xDD, 0xBB, 0xDE, 0xED,
   0xBB, 0xF7, 0x6E, 0xDD, 0xBF, 0x6E, 0xDD, 0xDE, 0xF7, 0x75, 0xC9, 0xBB, 0xDE, 0xFC, 0xFF, 0xBE,
   0x7F, 0xFF, 0xFF, 0x76, 0xED, 0xFB, 0xB7, 0xF7, 0xE1, 0xBB, 0xDF, 0xDD, 0xBE, 0xF5, 0x6E, 0xDD,
   0x87, 0x86, 0xFF, 0xDD, 0xB6, 0x75, 0xD5, 0xD7, 0x87, 0x7E, 0x7E, 0xFC, 0xFF, 0xD5, 0x02, 0xF6,
   0x3F, 0x7A, 0xEA, 0x18, 0x0F, 0xBF, 0xFD, 0xB7, 0x7F, 0xF3, 0x80, 0xE3, 0xC7, 0x06, 0x07, 0xF7,
   0xFF, 0x6A, 0xAA, 0x7F, 0xFB, 0xF4, 0x1F, 0xE2, 0x33, 0x3F, 0xFF, 0xDF, 0xFC, 0x1E, 0xBB, 0xEA,
   0xFF, 0xBF, 0xF7, 0x1F, 0x7E, 0xFF, 0xFF, 0xEF, 0x9B, 0xDF, 0x7F, 0xD8, 0x3F, 0x6E, 0xEF, 0xBB,
   0xF7, 0xBF, 0x7D, 0xF0, 0x7D, 0xF7, 0xA7, 0x06, 0xED, 0xFB, 0xB7, 0xEF, 0xD9, 0xBB, 0xDF, 0xED,
   0x7B, 0xF7, 0x6C, 0xDD, 0xBF, 0x56, 0xBF, 0xDE, 0xF7, 0x6E, 0xD5, 0xD7, 0xDF, 0x7C, 0xFF, 0x7E,
   0x6E, 0xFF, 0xFF, 0x86, 0xED, 0xFB, 0xB0, 0x77, 0xDD, 0xBB, 0xDF, 0xDC, 0x7E, 0xF5, 0x6E, 0xDD,
   0xBB, 0x76, 0xFE, 0x3D, 0xF7, 0x6E, 0xD5, 0xEF, 0x77, 0xBE, 0x7E, 0xFC, 0xFF, 0xEB, 0x00, 0xFA,
   0x7F, 0x77, 0x79, 0x1C, 0xFF, 0x01, 0xFF, 0xBB, 0x6F, 0xFB, 0x80, 0xC0, 0x02, 0x02, 0x08, 0x07,
   0xE0, 0x15, 0x55, 0x7F, 0xFB, 0xF0, 0x0F, 0xFF, 0xF3, 0x3F, 0xFF, 0xDF, 0xFE, 0xBC, 0x7D, 0xF7,
   0xFF, 0xBF, 0xF7, 0xBC, 0x1F, 0xF0, 0x7F, 0xF7, 0xAB, 0xDF, 0x9F, 0x3B, 0x7F, 0x61, 0xF7, 0xC7,
   0x87, 0xFF, 0xFB, 0xFF, 0xFE, 0xF7, 0xA3, 0x76, 0x1D, 0xFB, 0xB0, 0xE1, 0xDF, 0x83, 0xDF, 0xEC,
   0xFB, 0xF5, 0x6A, 0xDD, 0x87, 0x76, 0x1E, 0x3E, 0xF7, 0x6E, 0xD5, 0xEF, 0xDF, 0xBC, 0xFE, 0xFE,
   0x75, 0xFF, 0xFF, 0xF6, 0xED, 0xFB, 0xB7, 0x61, 0xDD, 0xBB, 0xDF, 0xDD, 0xBE, 0xF5, 0x6E, 0xDD,
   0xBB, 0x76, 0x7D, 0xFD, 0xF7, 0x6E, 0xDD, 0xD7, 0x77, 0xDC, 0xFE, 0xFE, 0x7F, 0xD5, 0x93, 0x26,
   0xFE, 0xBF, 0xA0, 0xA0, 0x0F, 0xBF, 0xFF, 0xBD, 0x5F, 0xFF, 0x80, 0xE3, 0xC7, 0xDF, 0x1F, 0xF7,
   0xFF, 0x6A, 0xAA, 0x7C, 0x07, 0xF4, 0x1F, 0xE2, 0x3F, 0x3F, 0xFF, 0xDF, 0x5C, 0x1A, 0xFE, 0xEB,
   0xF7, 0xBF, 0xF7, 0x1F, 0x7F, 0xFF, 0xFF, 0xFB, 0xB3, 0xDF, 0xEF, 0xBD, 0x70, 0xEF, 0xFB, 0xBB,
   0x77, 0xBF, 0x7D, 0xF0, 0x7D, 0xFB, 0xAB, 0x76, 0xED, 0xFB, 0xB7, 0xEF, 0xDF, 0xBB, 0xDF, 0xED,
   0x7B, 0xF5, 0x66, 0xDD, 0xBB, 0x76, 0xED, 0xFE, 0xF7, 0x6E, 0xDD, 0xD7, 0xAF, 0xDC, 0xFD, 0xFE,
   0x7B, 0xFF, 0xFF, 0x8E, 0x1E, 0x1C, 0x38, 0xF7, 0xE3, 0x87, 0x9F, 0x9D, 0xDE, 0xF2, 0x61, 0xE3,
   0x87, 0x86, 0x8E, 0x18, 0x77, 0x6E, 0xDD, 0xBB, 0x76, 0x0E, 0x7E, 0xFC, 0xFF, 0xEB, 0xEF, 0xDF,
   0xFD, 0xDF, 0xC0, 0x7E, 0x73, 0xDF, 0xFF, 0xBE, 0x3F, 0xFF, 0x80, 0xF3, 0xCF, 0xDB, 0xB7, 0xF7,
   0xFE, 0xD5, 0x55, 0x83, 0xFF, 0xF6, 0x3F, 0xFA, 0xFF, 0x3F, 0xFF, 0xDF, 0x5E, 0xBC, 0x33, 0x6B,
   0xF7, 0xDF, 0xEE, 0xAF, 0x7F, 0xFF, 0xFF, 0xFD, 0xBB, 0x9E, 0xEF, 0xDE, 0x77, 0xF7, 0xFD, 0xBB,
   0x77, 0xFF, 0xFE, 0xFF, 0xFB, 0xDD, 0xBB, 0xAE, 0xED, 0xDB, 0xB7, 0xEF, 0xDF, 0xBB, 0xDF, 0xED,
   0xBB, 0xF2, 0x6E, 0xDD, 0xBB, 0x76, 0xED, 0xDE, 0xF7, 0x6E, 0xDD, 0xBB, 0x77, 0xEC, 0xFB, 0xFE,
   0x7F, 0xFF, 0xFF, 0xFE, 0xFF, 0xFF, 0xBF, 0xF6, 0xFF, 0xBF, 0xFF, 0xFD, 0xFE, 0xFF, 0xFF, 0xFF,
   0xFF, 0xFF, 0xFF, 0xFD, 0xFF, 0xFF, 0xFF, 0xFF, 0xFF, 0xFE, 0x7E, 0xFC, 0xE9, 0xD5, 0xF7, 0xEF,
   0xF8, 0x0F, 0xE0, 0x3C, 0x7F, 0xEF, 0xFF, 0xBF, 0x70, 0x1F, 0x80, 0x9B, 0xD9, 0xFB, 0xF7, 0xF7,
   0xFD, 0xEA, 0xAA, 0xFF, 0xFF, 0xF7, 0x70, 0x1A, 0xC0, 0x3F, 0xFF, 0xDF, 0x5E, 0xBE, 0xF3, 0xF7,
   0xF7, 0xEF, 0xDF, 0xBF, 0xFF, 0xFF, 0xFF, 0xFF, 0xC7, 0xDF, 0x1C, 0x1F, 0x70, 0x78, 0xC1, 0xC7,
   0x8F, 0xFF, 0xFF, 0x7F, 0xF7, 0xE3, 0xC7, 0xDE, 0x1E, 0x38, 0x70, 0x60, 0xE1, 0xBB, 0x8F, 0xED,
   0xDB, 0xF7, 0x6E, 0xE3, 0x87, 0x8E, 0x1E, 0x38, 0x37, 0x6E, 0xDD, 0xBB, 0x76, 0x0C, 0x1F, 0xF0,
   0x7F, 0xFF, 0xFF, 0xFE, 0xFF, 0xFF, 0xBF, 0xF9, 0xFF, 0xBF, 0xDF, 0xDD, 0xFC, 0xFF, 0xFF, 0xFF,
   0xFF, 0xFF, 0xFF, 0xFD, 0xFF, 0xFF, 0xFF, 0xFF, 0xFF, 0xFF, 0x1E, 0xF1, 0xF2, 0xFF]

/-! ### The functions -/

/-- The loops of `af_Create` over the glyphs of an image. -/
def cutGlyphs (img : Addr) (w : BitVec 32) (m : Memory) (font : ℕ → ℕ → BitVec 8) :
    ℕ → ℕ → BitVec 8 :=
  forUpTo (fun n font =>
    (forUpTo (fun y s => forUpTo (fun x (s : ℕ × (ℕ → ℕ → BitVec 8)) =>
      (s.1 + 1, setAt2 s.2 n s.1
        (m (img + (BitVec.ofNat 32 y * w + BitVec.ofNat 32 (x + n * FONT_X)))))) FONT_X s)
      FONT_Y (0, font)).2) FONT_NUM font

/-- `af_Create`, with the bitmaps at `normal` and `inverse`. -/
def afCreate (fuel : ℕ) (normal inverse : Addr) (fonts : Fonts) (k : KernelHeap) :
    Option (Fonts × KernelHeap) := do
  let image ← afReadBmpMemory fuel normal k
  let fonts := { fonts with af_font := cutGlyphs image.img image.w image.heap.mem fonts.af_font }
  let k := free image.img image.heap
  let image ← afReadBmpMemory fuel inverse k
  let fonts :=
    { fonts with af_invfont := cutGlyphs image.img image.w image.heap.mem fonts.af_invfont }
  some (fonts, free image.img image.heap)

/-- `ad_ClearScreen`, on the memory. -/
def clearScreen (colorbuffer : Addr) (m : Memory) : Memory :=
  forUpTo (fun y m => forUpTo (fun x m =>
    store8 m (colorbuffer + BitVec.ofNat 32 (y * SCREENSIZE_X + x)) 0) SCREENSIZE_X m)
    SCREENSIZE_Y m

/-- `ad_Create` on the tables and on the heap; the globals are those of `Device.adCreate`. Like
`af_read_bmp_memory` it does not ask whether `malloc` granted its request. -/
def adCreate (fuel : ℕ) (normal inverse : Addr) (fonts : Fonts) (k : KernelHeap) :
    Option (Fonts × Addr × KernelHeap) := do
  let (fonts, k) ← afCreate fuel normal inverse fonts k
  let (colorbuffer, k) ← malloc fuel (BitVec.ofNat 32 (SCREENSIZE_X * SCREENSIZE_Y)) k
  if colorbuffer = 0 then none
  else some (fonts, colorbuffer, { k with mem := clearScreen colorbuffer k.mem })

/-! ### Cutting an image into glyphs -/

section Cut

variable (img : Addr) (w : BitVec 32) (m : Memory)

/-- The byte of the image that becomes entry `pos` of glyph `n`. -/
def glyphByte (n pos : ℕ) : BitVec 8 :=
  m (img + (BitVec.ofNat 32 (pos / FONT_X) * w + BitVec.ofNat 32 (pos % FONT_X + n * FONT_X)))

/-- The first `pos` entries of glyph `n` are cut out. -/
def Cut (font : ℕ → ℕ → BitVec 8) (n pos : ℕ) (s : ℕ × (ℕ → ℕ → BitVec 8)) : Prop :=
  s.1 = pos ∧ ∀ i j, s.2 i j = if i = n ∧ j < pos then glyphByte img w m n j else font i j

variable {img w m} {font : ℕ → ℕ → BitVec 8} {s : ℕ × (ℕ → ℕ → BitVec 8)} {n : ℕ}

/-- One pixel further. -/
theorem Cut.step {y x : ℕ} (hx : x < FONT_X) (h : Cut img w m font n (y * FONT_X + x) s) :
    Cut img w m font n (y * FONT_X + (x + 1)) (s.1 + 1, setAt2 s.2 n s.1
      (m (img + (BitVec.ofNat 32 y * w + BitVec.ofNat 32 (x + n * FONT_X))))) := by
  obtain ⟨hpos, htable⟩ := h
  have hrow : (y * FONT_X + x) / FONT_X = y ∧ (y * FONT_X + x) % FONT_X = x := by
    simp only [FONT_X] at hx ⊢
    omega
  refine ⟨by rw [hpos, Nat.add_assoc], fun i j => ?_⟩
  dsimp only
  rw [setAt2_apply, htable, hpos]
  by_cases hnew : i = n ∧ j = y * FONT_X + x
  · obtain ⟨rfl, rfl⟩ := hnew
    rw [if_pos ⟨rfl, rfl⟩, if_pos ⟨rfl, by omega⟩, glyphByte, hrow.1, hrow.2]
  · rw [if_neg hnew]
    refine if_congr ?_ rfl rfl
    omega

/-- A glyph is cut out. -/
theorem cut_glyph (font : ℕ → ℕ → BitVec 8) (n : ℕ) : Cut img w m font n (FONT_Y * FONT_X)
    (forUpTo (fun y s => forUpTo (fun x (s : ℕ × (ℕ → ℕ → BitVec 8)) =>
      (s.1 + 1, setAt2 s.2 n s.1
        (m (img + (BitVec.ofNat 32 y * w + BitVec.ofNat 32 (x + n * FONT_X)))))) FONT_X s)
      FONT_Y (0, font)) := by
  refine forUpTo_inv (fun y s => Cut img w m font n (y * FONT_X) s) ⟨(Nat.zero_mul _).symm, ?_⟩ ?_
  · intro i j
    rw [if_neg (by omega)]
  · intro y _ s hs
    rw [Nat.succ_mul]
    exact forUpTo_inv (fun x s => Cut img w m font n (y * FONT_X + x) s) hs
      fun x hx s hs => hs.step hx

/-- What is cut out of an image: a glyph is seven columns wide and eight rows high. -/
theorem cutGlyphs_apply {y x : ℕ} (hn : n < FONT_NUM) (hy : y < FONT_Y) (hx : x < FONT_X) :
    cutGlyphs img w m font n (y * FONT_X + x) =
      m (img + (BitVec.ofNat 32 y * w + BitVec.ofNat 32 (x + n * FONT_X))) := by
  have htable : ∀ i j, cutGlyphs img w m font i j =
      if i < FONT_NUM ∧ j < FONT_Y * FONT_X then glyphByte img w m i j else font i j := by
    refine forUpTo_inv (fun n (t : ℕ → ℕ → BitVec 8) => ∀ i j, t i j =
      if i < n ∧ j < FONT_Y * FONT_X then glyphByte img w m i j else font i j) ?_ ?_
    · intro i j
      rw [if_neg (by omega)]
    · intro n _ t ht i j
      rw [(cut_glyph t n).2, ht]
      by_cases hnew : i = n
      · obtain rfl := hnew
        by_cases hj : j < FONT_Y * FONT_X
        · rw [if_pos ⟨rfl, hj⟩, if_pos ⟨Nat.lt_succ_self _, hj⟩]
        · rw [if_neg fun h => hj h.2, if_neg fun h => hj h.2, if_neg fun h => hj h.2]
      · rw [if_neg fun h => hnew h.1]
        refine if_congr ?_ rfl rfl
        omega
  have hpos : y * FONT_X + x < FONT_Y * FONT_X := by
    simp only [FONT_X, FONT_Y] at *
    omega
  have hrow : (y * FONT_X + x) / FONT_X = y ∧ (y * FONT_X + x) % FONT_X = x := by
    simp only [FONT_X] at hx ⊢
    omega
  rw [htable, if_pos ⟨hn, hpos⟩, glyphByte, hrow.1, hrow.2]

end Cut

/-! ### A bitmap on a fresh heap -/

section Fresh

variable {k : KernelHeap} {buffer : Addr} {len w h fuel : ℕ} {r : Image}

/-- The two blocks that the reader asks for fit into a fresh heap. -/
def FitsFresh (w h : ℕ) : Prop :=
  w * h + recordSize + (lineSize (w / 8) * h + 3) / 4 * 4 ≤ arena - recordSize

theorem fresh_roomFor (hk : Fresh k) (hfit : FitsFresh w h) : RoomFor k w h := by
  have hl := hk.layout
  rw [FitsFresh] at hfit
  refine ⟨[], ⟨arena - recordSize, none⟩, [], ⟨hl.head, hl.shape.tiling.forward⟩, ⟨rfl, ?_⟩,
    List.forall_mem_nil _, .inl hfit⟩
  dsimp only
  omega

/-- Three turns of the search are enough. -/
theorem fresh_reads (hk : Fresh k) (hb : IsBmp k.mem buffer len w h) (hfit : FitsFresh w h) :
    ∃ r, afReadBmpMemory 3 buffer k = some r := by
  have hroom := fresh_roomFor hk hfit
  have hl := hk.layout
  have hs : SafeRow k [⟨arena - recordSize, none⟩] :=
    ⟨⟨hl.head, hl.shape.tiling.forward⟩, hl.shape.chain.backed⟩
  have hlt : w * h < 2 ^ 32 := hroom.le_arena.trans_lt (by decide)
  obtain ⟨⟨img, k₁⟩, h₁⟩ := hs.toRow.malloc_comes_back (BitVec.ofNat 32 (w * h))
    (show 1 < 3 by omega)
  obtain ⟨⟨data, k₂⟩, h₂⟩ : ∃ r,
      malloc 3 (BitVec.ofNat 32 (lineSize (w / 8) * h)) k₁ = some r := by
    by_cases himg : img = 0
    · subst himg
      obtain ⟨rfl, -⟩ := hs.toRow.malloc_null h₁
      exact hs.toRow.malloc_comes_back _ (show 1 < 3 by omega)
    · obtain ⟨bs₁, hs₁, hlen₁, -⟩ := hs.malloc h₁ himg
      rw [List.length_singleton] at hlen₁
      exact hs₁.toRow.malloc_comes_back _ (by omega)
  exact ⟨_, hb.run_iff.mpr
    ⟨img, k₁, data, k₂, h₁, h₂, (hb.granted_iff hs.toRow hlt h₁ h₂).mpr hroom, rfl⟩⟩

/-- A bitmap is unpacked on a fresh heap, which is fresh again when the block of the image has been
given back. -/
theorem fresh_read (hk : Fresh k) (hb : IsBmp k.mem buffer len w h) (hfit : FitsFresh w h)
    (hbelow : buffer.toNat + len ≤ base) (hlen : 62 + lineSize (w / 8) * h ≤ len)
    (hrun : afReadBmpMemory fuel buffer k = some r) :
    (∀ y < h, ∀ x < w, r.heap.mem (r.img + BitVec.ofNat 32 (y * w + x)) =
        Bitmap.pixel (fun i => fileByte k.mem buffer (62 + i)) (lineSize (w / 8)) h x y) ∧
      r.w = BitVec.ofNat 32 w ∧ Fresh (free r.img r.heap) ∧
      ChangedOnly k.mem (free r.img r.heap).mem base (base + arena) := by
  have hlt : w * h < 2 ^ 32 := (fresh_roomFor hk hfit).le_arena.trans_lt (by decide)
  have hl := hk.layout
  have hs : SafeRow k [⟨arena - recordSize, none⟩] :=
    ⟨⟨hl.head, hl.shape.tiling.forward⟩, hl.shape.chain.backed⟩
  obtain ⟨img, k₁, data, k₂, h₁, h₂, ⟨hne₁, hne₂⟩, rfl⟩ := hb.run_iff.mp hrun
  obtain ⟨-, -, hpixels⟩ := unpack_spec hs hb (fileInUse_below hbelow) hlt hlen h₁ hne₁ h₂ hne₂
  refine ⟨hpixels, rfl, ?_⟩
  -- the two blocks, one behind the other
  obtain ⟨hnull, -⟩ | ⟨-, bs₁, hstack₁, hl₁⟩ := hl.malloc_stacked (stacked_single _) h₁
  · exact absurd hnull hne₁
  obtain ⟨hnull, -⟩ | ⟨-, bs₂, -, hl₂⟩ := hl₁.malloc_stacked hstack₁ h₂
  · exact absurd hnull hne₂
  obtain ⟨hpos, hle, hw, hL, hmax, -⟩ := hb.sizes hlt
  obtain ⟨⟨_, hs₂⟩, ⟨⟨himg, hroom₁⟩, ⟨hdata, hroom₂⟩, hne⟩, -⟩ :=
    hs.malloc_both h₁ hne₁ h₂ hne₂ (by omega) (by omega)
  obtain ⟨hlo₁, hend₁⟩ := hs₂.toRow.live_bounds himg
  obtain ⟨hlo₂, hend₂⟩ := hs₂.toRow.live_bounds hdata
  have hapart := hs₂.toRow.live_disjoint himg hdata hne
  have htop : base + arena < 2 ^ 32 := by decide
  have hnat : img.toNat ≠ data.toNat := fun h => hne (BitVec.eq_of_toNat_eq h)
  rw [hw] at hl₁ hl₂ hroom₁
  rw [hL] at hl₂ hroom₂
  have hlive₂ : Function.update (Function.update (fun _ => none) img.toNat (some (w * h)))
      data.toNat (some (lineSize (w / 8) * h)) data.toNat = some (lineSize (w / 8) * h) :=
    Function.update_self _ _ _
  have hlive₁ : Function.update (Function.update (fun _ => none) img.toNat (some (w * h)))
      data.toNat (some (lineSize (w / 8) * h)) img.toNat = some (w * h) := by
    rw [Function.update_of_ne hnat, Function.update_self]
  have hw8 : 8 * (w / 8) = w := Nat.mul_div_cancel' hb.bytes
  -- the copy goes into the second one, the image into the first one
  have hcopy : ChangedOnly k₂.mem (memcpy k₂.mem data (buffer + 62)
      (BitVec.ofNat 32 (lineSize (w / 8) * h))) data.toNat
      (data.toNat + lineSize (w / 8) * h) := by
    have hstores : ChangedOnly k₂.mem (memcpy k₂.mem data (buffer + 62)
        (BitVec.ofNat 32 (lineSize (w / 8) * h))) data.toNat
        (data.toNat + (BitVec.ofNat 32 (lineSize (w / 8) * h)).toNat) :=
      memcpy_changedOnly k₂.mem (buffer + 62) (by omega)
    rwa [hL] at hstores
  have hl₃ := hl₂.write_live hlive₂ hroom₂ hcopy
  have hu : Unpacks img data (w / 8) (lineSize (w / 8)) h := by
    refine ⟨by rw [hw8]; omega, Nat.le_add_right _ _, fun i hi => ?_⟩
    rw [toNat_add_lt (a := data) (n := lineSize (w / 8) * h) (by omega) hi, hw8]
    omega
  obtain ⟨hstored, -⟩ := decode_spec hu (by rw [hw8]; exact hb.wide.2) hb.tall.2
    (memcpy k₂.mem data (buffer + 62) (BitVec.ofNat 32 (lineSize (w / 8) * h)))
  rw [OnlyImage, hw8] at hstored
  obtain ⟨-, -, -, -, hlength, -⟩ := hl₃.entry hlive₁
  have hl₄ := hl₃.write_live hlive₁ (hlength (by omega)) hstored
  -- both are given back
  obtain ⟨bs₅, hl₅⟩ := hl₄.free hlive₂
  have hlive₅ : Function.update (Function.update (Function.update (fun _ => none) img.toNat
      (some (w * h))) data.toNat (some (lineSize (w / 8) * h))) data.toNat none img.toNat =
        some (w * h) := by
    rw [Function.update_of_ne hnat, hlive₁]
  obtain ⟨bs₆, hl₆⟩ := hl₅.free hlive₅
  refine ⟨hl₆.fresh fun x => ?_, ?_⟩
  · simp only [Function.update_apply]
    split_ifs <;> rfl
  · exact (((((hl.malloc_arena h₁).trans (hl₁.malloc_arena h₂)).trans
      (hcopy.mono (by omega) (by omega))).trans (hstored.mono (by omega) (by omega))).trans
      (hl₄.free_arena hlive₂)).trans (hl₅.free_arena hlive₅)

end Fresh

/-! ### The two fonts -/

/-- The file `l` of a font lies at `a`, below the heap. -/
structure FontAt (m : Memory) (a : Addr) (l : List (BitVec 8)) : Prop where
  bytes : ∀ i < 958, m (a + BitVec.ofNat 32 i) = l.getD i 0
  below : a.toNat + 958 ≤ base

/-- A pixel of a glyph: a file has 128 glyphs side by side. -/
def fontDot (l : List (BitVec 8)) (n x y : ℕ) : BitVec 8 :=
  Bitmap.pixel (fun i => l.getD (62 + i) 0) 112 FONT_Y (x + n * FONT_X) y

section Files

variable {m m' : Memory} {a : Addr} {l : List (BitVec 8)}

theorem FontAt.changed (h : FontAt m a l) (hch : ChangedOnly m m' base (base + arena)) :
    FontAt m' a l where
  bytes i hi := by
    rw [← h.bytes i hi]
    refine hch _ (.inl ?_)
    have hbelow := h.below
    rw [toNat_add_lt (n := 958) (hbelow.trans (by decide)) hi]
    omega
  below := h.below

/-- A word of the file. -/
theorem FontAt.load32_eq (h : FontAt m a l) {i : ℕ} (hi : i + 4 ≤ 958) :
    load32 m (a + BitVec.ofNat 32 i) =
      BitVec.ofNat 32 ((l.getD i 0).toNat + 2 ^ 8 * (l.getD (i + 1) 0).toNat +
        2 ^ 16 * (l.getD (i + 2) 0).toNat + 2 ^ 24 * (l.getD (i + 3) 0).toNat) := by
  have hnext : ∀ j, a + BitVec.ofNat 32 i + BitVec.ofNat 32 j = a + BitVec.ofNat 32 (i + j) := by
    intro j
    rw [BitVec.ofNat_add, BitVec.add_assoc]
  have hone : (1 : BitVec 32) = BitVec.ofNat 32 1 := rfl
  have htwo : (2 : BitVec 32) = BitVec.ofNat 32 2 := rfl
  have hthree : (3 : BitVec 32) = BitVec.ofNat 32 3 := rfl
  rw [load32, hone, htwo, hthree, hnext, hnext, hnext, h.bytes _ (by omega), h.bytes _ (by omega),
    h.bytes _ (by omega), h.bytes _ (by omega)]

/-- Both files have one bit a pixel, 128 glyphs wide and a glyph high. -/
theorem FontAt.isBmp (h : FontAt m a l) (hhead : l.take 30 = normalfont.take 30) :
    IsBmp m a 958 896 8 := by
  have hget : ∀ i < 30, l.getD i 0 = normalfont.getD i 0 := by
    intro i hi
    have htake := congrArg (fun l => l[i]?.getD 0) hhead
    simpa [List.getElem?_take, hi, List.getD] using htake
  constructor
  case room => exact h.below.trans (by decide)
  case offset =>
    have hword := h.load32_eq (i := 10) (by omega)
    rw [hget _ (by omega), hget _ (by omega), hget _ (by omega), hget _ (by omega)] at hword
    exact hword.trans (by decide)
  case width =>
    have hword := h.load32_eq (i := 18) (by omega)
    rw [hget _ (by omega), hget _ (by omega), hget _ (by omega), hget _ (by omega)] at hword
    exact hword.trans (by decide)
  case height =>
    have hword := h.load32_eq (i := 22) (by omega)
    rw [hget _ (by omega), hget _ (by omega), hget _ (by omega), hget _ (by omega)] at hword
    exact hword.trans (by decide)
  case bitCount =>
    exact ⟨(h.bytes 28 (by omega)).trans (hget 28 (by omega)),
      (h.bytes 29 (by omega)).trans (hget 29 (by omega))⟩
  case wide => omega
  case bytes => exact ⟨112, rfl⟩
  case tall => omega
  case size => decide

/-- What is cut out of the image of a font. -/
theorem FontAt.cut (h : FontAt m a l) {img : Addr} {mem : Memory} {font : ℕ → ℕ → BitVec 8}
    (hpixels : ∀ y < 8, ∀ x < 896, mem (img + BitVec.ofNat 32 (y * 896 + x)) =
      Bitmap.pixel (fun i => fileByte m a (62 + i)) (lineSize (896 / 8)) 8 x y)
    {n y x : ℕ} (hn : n < FONT_NUM) (hy : y < FONT_Y) (hx : x < FONT_X) :
    cutGlyphs img (BitVec.ofNat 32 896) mem font n (y * FONT_X + x) = fontDot l n x y := by
  have hcol : x + n * FONT_X < 896 := by
    simp only [FONT_NUM, FONT_X] at *
    omega
  have hcell : BitVec.ofNat 32 y * BitVec.ofNat 32 896 + BitVec.ofNat 32 (x + n * FONT_X) =
      BitVec.ofNat 32 (y * 896 + (x + n * FONT_X)) := by
    rw [← BitVec.ofNat_mul, ← BitVec.ofNat_add]
  rw [cutGlyphs_apply hn hy hx, hcell, hpixels y hy _ hcol]
  have hline : lineSize (896 / 8) = 112 := by decide
  rw [hline]
  exact Bitmap.pixel_congr le_rfl hy hcol fun i hi => h.bytes (62 + i) (by omega)

end Files

section Create

variable {k k' : KernelHeap} {normal inverse : Addr} {fonts fonts' : Fonts}

theorem fitsFresh_font : FitsFresh 896 8 := by
  rw [FitsFresh]
  decide

/-- One of the two fonts, read on a fresh heap. -/
theorem font_read {l : List (BitVec 8)} {a : Addr} {fuel : ℕ} {r : Image} (hk : Fresh k)
    (hfont : FontAt k.mem a l) (hhead : l.take 30 = normalfont.take 30)
    (hrun : afReadBmpMemory fuel a k = some r) :
    (∀ font n, n < FONT_NUM → ∀ y < FONT_Y, ∀ x < FONT_X,
        cutGlyphs r.img r.w r.heap.mem font n (y * FONT_X + x) = fontDot l n x y) ∧
      Fresh (free r.img r.heap) ∧
      ChangedOnly k.mem (free r.img r.heap).mem base (base + arena) := by
  have hb := hfont.isBmp hhead
  obtain ⟨hpixels, hw, hfresh, hch⟩ := fresh_read hk hb fitsFresh_font hfont.below (by decide) hrun
  refine ⟨fun font n hn y hy x hx => ?_, hfresh, hch⟩
  rw [hw]
  exact hfont.cut hpixels hn hy hx

theorem inversefont_head : inversefont.take 30 = normalfont.take 30 := by decide

/-- Where `af_Create` reads the second font. -/
theorem second_read (hk : Fresh k) (hnormal : FontAt k.mem normal normalfont)
    (hinverse : FontAt k.mem inverse inversefont) {fuel : ℕ} {r : Image}
    (hrun : afReadBmpMemory fuel normal k = some r) :
    Fresh (free r.img r.heap) ∧ FontAt (free r.img r.heap).mem inverse inversefont := by
  obtain ⟨-, hfresh, hch⟩ := font_read hk hnormal rfl hrun
  exact ⟨hfresh, hinverse.changed hch⟩

/-- `af_Create` comes back on a fresh heap. -/
theorem afCreate_returns (hk : Fresh k) (hnormal : FontAt k.mem normal normalfont)
    (hinverse : FontAt k.mem inverse inversefont) (fonts : Fonts) :
    ∃ fonts' k', afCreate 3 normal inverse fonts k = some (fonts', k') := by
  obtain ⟨r, hrun⟩ := fresh_reads hk (hnormal.isBmp rfl) fitsFresh_font
  obtain ⟨hfresh, hfont⟩ := second_read hk hnormal hinverse hrun
  obtain ⟨r', hrun'⟩ := fresh_reads hfresh (hfont.isBmp inversefont_head) fitsFresh_font
  simp only [afCreate, hrun, hrun', Option.bind_eq_bind, Option.bind_some]
  exact ⟨_, _, rfl⟩

/-- What `af_Create` leaves of a fresh heap. -/
theorem afCreate_spec (hk : Fresh k) (hnormal : FontAt k.mem normal normalfont)
    (hinverse : FontAt k.mem inverse inversefont) {fuel : ℕ}
    (h : afCreate fuel normal inverse fonts k = some (fonts', k')) :
    (∀ n < FONT_NUM, ∀ y < FONT_Y, ∀ x < FONT_X,
      fonts'.af_font n (y * FONT_X + x) = fontDot normalfont n x y ∧
        fonts'.af_invfont n (y * FONT_X + x) = fontDot inversefont n x y) ∧
      Fresh k' ∧ ChangedOnly k.mem k'.mem base (base + arena) := by
  simp only [afCreate, Option.bind_eq_bind, Option.bind_eq_some_iff] at h
  obtain ⟨r, hrun, r', hrun', heq⟩ := h
  obtain ⟨rfl, rfl⟩ := Prod.mk.inj (Option.some.inj heq)
  obtain ⟨hglyphs, -, hch⟩ := font_read hk hnormal rfl hrun
  obtain ⟨hfresh, hfont⟩ := second_read hk hnormal hinverse hrun
  obtain ⟨hglyphs', hfresh', hch'⟩ := font_read hfresh hfont inversefont_head hrun'
  exact ⟨fun n hn y hy x hx => ⟨hglyphs _ n hn y hy x hx, hglyphs' _ n hn y hy x hx⟩, hfresh',
    hch.trans hch'⟩

end Create

/-! ### The inverse font -/

theorem inversefont_rows : inversefont.drop 62 = (normalfont.drop 62).map (~~~ ·) := by
  decide +kernel

/-- The inverse font has a dot where the normal one has none. -/
theorem fontDot_inverse {n x y : ℕ} (hn : n < FONT_NUM) (hy : y < FONT_Y) (hx : x < FONT_X) :
    fontDot inversefont n x y = 1 - fontDot normalfont n x y := by
  have hlength : normalfont.length = 958 := by decide +kernel
  have hcol : (x + n * FONT_X) / 8 < 112 := by
    simp only [FONT_NUM, FONT_X] at *
    omega
  simp only [FONT_Y] at hy
  have hindex : (FONT_Y - 1 - y) * 112 + (x + n * FONT_X) / 8 < 896 := by
    rw [FONT_Y]
    omega
  have hbyte : ∀ i < 896, inversefont.getD (62 + i) 0 = ~~~ normalfont.getD (62 + i) 0 := by
    intro i hi
    have hrow := congrArg (fun l => l[i]?.getD 0) inversefont_rows
    have hin : 62 + i < normalfont.length := by omega
    simpa [List.getD, hin] using hrow
  have hflip : ∀ (b : BitVec 8) (k : ℕ), k < 8 → ((~~~ b) >>> k) &&& 1 = 1 - ((b >>> k) &&& 1) := by
    intro b k hk
    rw [Bitmap.shiftRight_and_one, Bitmap.shiftRight_and_one, BitVec.getLsbD_not,
      decide_eq_true hk, Bool.true_and]
    cases b.getLsbD k <;> decide
  simp only [fontDot, Bitmap.pixel]
  rw [hbyte _ hindex]
  exact hflip _ _ (by omega)

/-! ### The screen -/

section Screen

variable {k k' : KernelHeap} {m : Memory} {colorbuffer : Addr}

/-- The number of pixels. -/
def SCREENBYTES : ℕ := SCREENSIZE_X * SCREENSIZE_Y

/-- The first `n` pixels are cleared, and nothing but pixels has changed. -/
def Cleared (m : Memory) (colorbuffer : Addr) (n : ℕ) (m' : Memory) : Prop :=
  ChangedOnly m m' colorbuffer.toNat (colorbuffer.toNat + SCREENBYTES) ∧
    ∀ i < n, m' (colorbuffer + BitVec.ofNat 32 i) = 0

theorem Cleared.step {m' : Memory} (hroom : colorbuffer.toNat + SCREENBYTES ≤ 2 ^ 32) {n : ℕ}
    (hn : n < SCREENBYTES) (h : Cleared m colorbuffer n m') :
    Cleared m colorbuffer (n + 1) (store8 m' (colorbuffer + BitVec.ofNat 32 n) 0) := by
  obtain ⟨hch, hclear⟩ := h
  have hnat := toNat_add_lt hroom hn
  refine ⟨hch.trans ((ChangedOnly.store8 m' _ _).mono (by omega) (by omega)), fun i hi => ?_⟩
  rw [store8_cell hroom hn (by omega)]
  split_ifs with heq
  · rfl
  · exact hclear i (by omega)

/-- `ad_ClearScreen` clears the screen. -/
theorem clearScreen_spec (hroom : colorbuffer.toNat + SCREENBYTES ≤ 2 ^ 32) :
    Cleared m colorbuffer SCREENBYTES (clearScreen colorbuffer m) := by
  have hstart : Cleared m colorbuffer (0 * SCREENSIZE_X) m :=
    ⟨.refl _ _ _, fun i hi => absurd hi (by omega)⟩
  have hbytes : SCREENBYTES = SCREENSIZE_Y * SCREENSIZE_X := by
    rw [SCREENBYTES, Nat.mul_comm]
  rw [hbytes]
  refine forUpTo_inv (fun y m' => Cleared m colorbuffer (y * SCREENSIZE_X) m') hstart
    fun y hy m' hm' => ?_
  rw [Nat.succ_mul]
  have hrow : Cleared m colorbuffer (y * SCREENSIZE_X + 0) m' := by
    rw [Nat.add_zero]
    exact hm'
  refine forUpTo_inv (fun x m' => Cleared m colorbuffer (y * SCREENSIZE_X + x) m') hrow
    fun x hx m' hm' => ?_
  have hle := Nat.mul_le_mul_right SCREENSIZE_X hy
  rw [Nat.succ_mul] at hle
  have hstep := Cleared.step hroom (n := y * SCREENSIZE_X + x) (by omega) hm'
  rwa [Nat.add_assoc] at hstep

/-- The request of the screen on a fresh heap. -/
theorem screen_granted (hk : Fresh k) {fuel : ℕ}
    (h : malloc fuel (BitVec.ofNat 32 SCREENBYTES) k = some (colorbuffer, k')) :
    colorbuffer ≠ 0 ∧ HeapIntegrity ⟨{ k' with mem := clearScreen colorbuffer k'.mem },
      Function.update (fun _ => none) colorbuffer.toNat (some SCREENBYTES)⟩ ∧
      ChangedOnly k.mem (clearScreen colorbuffer k'.mem) base (base + arena) ∧
      ∀ i < SCREENBYTES, clearScreen colorbuffer k'.mem (colorbuffer + BitVec.ofNat 32 i) = 0 := by
  have hl := hk.layout
  have hsize : (BitVec.ofNat 32 SCREENBYTES).toNat = SCREENBYTES := by decide
  have hne : colorbuffer ≠ 0 := by
    have hrow : Row k [⟨arena - recordSize, none⟩] := ⟨hl.head, hl.shape.tiling.forward⟩
    refine (hrow.malloc_ne_null_iff (by decide) h).mpr (hrow.holds_iff.mpr ?_)
    exact ⟨⟨arena - recordSize, none⟩, List.mem_singleton_self _, rfl, by decide⟩
  obtain ⟨hnull, -⟩ | ⟨-, bs, -, hl'⟩ := hl.malloc_stacked (stacked_single _) h
  · exact absurd hnull hne
  rw [hsize] at hl'
  obtain ⟨-, -, hlo, hhi, hlength, -⟩ := hl'.entry (Function.update_self _ _ _)
  have hroom := hlength (by decide)
  have htop : base + arena < 2 ^ 32 := by decide
  obtain ⟨hch, hclear⟩ : Cleared k'.mem colorbuffer SCREENBYTES _ := clearScreen_spec (by omega)
  have hl'' := hl'.write_live (Function.update_self _ _ _) hroom hch
  refine ⟨hne, hl''.integrity fun x n hx => ?_, ?_, hclear⟩
  · simp only [Function.update_apply] at hx
    split_ifs at hx
    rw [← Option.some.inj hx]
    decide
  · exact (hl.malloc_arena h).trans (hch.mono (by omega) (by omega))

end Screen

/-! ### The start of the emulator -/

/-- `k_init_mem` stores into the arena only. -/
theorem start_arena (m : Memory) :
    ChangedOnly m (Session.start m).heap.mem base (base + arena) := by
  have hfits : Inside gMemory base (base + arena) := ⟨by decide, by decide⟩
  have htop : base + arena ≤ 2 ^ 32 := by decide
  have hcond : ¬ ((0 : Addr) ≠ 0 ∨ MAX_MEM_SIZE < headerLen) := by decide
  simp only [Session.start, kInitMem, if_neg hcond]
  exact ((((ChangedOnly.refl m _ _).setWord1 hfits htop _).setWord0 hfits htop _).setFlag hfits
    htop _).setWord2 hfits htop _

/-- **The tables of the fonts and the screen.** Whatever memory holds besides the two files of the
fonts, `ad_Create` comes back on the heap that `k_init_mem` leaves. The tables then hold the glyphs
of the normal file, pixel by pixel, and their complements. All that was asked for has been given
back but for the screen, which is the one block in use and is black; outside the heap no byte has
changed. -/
theorem adCreate_tables {m : Memory} {normal inverse : Addr} (fonts : Fonts)
    (hnormal : FontAt m normal normalfont) (hinverse : FontAt m inverse inversefont) :
    let k := (Session.start m).heap
    (∃ r, adCreate 3 normal inverse fonts k = some r) ∧
      ∀ fuel fonts' colorbuffer k',
        adCreate fuel normal inverse fonts k = some (fonts', colorbuffer, k') →
        (∀ n < FONT_NUM, ∀ y < FONT_Y, ∀ x < FONT_X,
          fonts'.af_font n (y * FONT_X + x) = fontDot normalfont n x y ∧
            fonts'.af_invfont n (y * FONT_X + x) = 1 - fontDot normalfont n x y) ∧
        HeapIntegrity ⟨k', Function.update (fun _ => none) colorbuffer.toNat (some SCREENBYTES)⟩ ∧
        (∀ i < SCREENBYTES, k'.mem (colorbuffer + BitVec.ofNat 32 i) = 0) ∧
        ChangedOnly m k'.mem base (base + arena) := by
  intro k
  have hk : Fresh k := start_fresh m
  have hnormal' := hnormal.changed (start_arena m)
  have hinverse' := hinverse.changed (start_arena m)
  constructor
  · obtain ⟨fonts', k', hcreate⟩ := afCreate_returns hk hnormal' hinverse' fonts
    obtain ⟨-, hfresh, -⟩ := afCreate_spec hk hnormal' hinverse' hcreate
    have hl := hfresh.layout
    have hrow : Row k' [⟨arena - recordSize, none⟩] := ⟨hl.head, hl.shape.tiling.forward⟩
    obtain ⟨⟨colorbuffer, k''⟩, hscreen⟩ :=
      hrow.malloc_comes_back (BitVec.ofNat 32 SCREENBYTES) (show 1 < 3 by omega)
    obtain ⟨hne, -⟩ := screen_granted hfresh hscreen
    rw [SCREENBYTES] at hscreen
    simp only [adCreate, hcreate, hscreen, Option.bind_eq_bind, Option.bind_some, if_neg hne]
    exact ⟨_, rfl⟩
  · intro fuel fonts' colorbuffer k' h
    simp only [adCreate, Option.bind_eq_bind, Option.bind_eq_some_iff, Prod.exists] at h
    obtain ⟨fonts₁, k₁, hcreate, buf, k₂, hscreen, heq⟩ := h
    split_ifs at heq with hnull
    simp only [Option.some.injEq, Prod.mk.injEq] at heq
    obtain ⟨rfl, rfl, rfl⟩ := heq
    obtain ⟨hglyphs, hfresh, hch⟩ := afCreate_spec hk hnormal' hinverse' hcreate
    obtain ⟨-, hintegrity, hch', hclear⟩ := screen_granted hfresh hscreen
    refine ⟨fun n hn y hy x hx => ?_, hintegrity, hclear, ((start_arena m).trans hch).trans hch'⟩
    obtain ⟨hdot, hinv⟩ := hglyphs n hn y hy x hx
    exact ⟨hdot, hinv.trans (fontDot_inverse hn hy hx)⟩

/-- The files of the fonts where a linker may have put them. -/
def fontMemory : Memory := fun a =>
  if a.toNat < 0x20000 then normalfont.getD (a.toNat - 0x10000) 0
  else inversefont.getD (a.toNat - 0x20000) 0

theorem adCreate_tables_linked :
    ∃ r, adCreate 3 0x10000 0x20000 ⟨fun _ _ => 0, fun _ _ => 0⟩
      (Session.start fontMemory).heap = some r := by
  have hnormal : FontAt fontMemory 0x10000 normalfont := by
    refine ⟨fun i hi => ?_, by decide⟩
    have hnat : ((0x10000 : Addr) + BitVec.ofNat 32 i).toNat = 0x10000 + i :=
      toNat_add_lt (n := 958) (by decide) hi
    rw [fontMemory, hnat, if_pos (by omega), Nat.add_sub_cancel_left]
  have hinverse : FontAt fontMemory 0x20000 inversefont := by
    refine ⟨fun i hi => ?_, by decide⟩
    have hnat : ((0x20000 : Addr) + BitVec.ofNat 32 i).toNat = 0x20000 + i :=
      toNat_add_lt (n := 958) (by decide) hi
    rw [fontMemory, hnat, if_neg (by omega), Nat.add_sub_cancel_left]
  exact (adCreate_tables ⟨fun _ _ => 0, fun _ _ => 0⟩ hnormal hinverse).1

end B2OS.Apple2
