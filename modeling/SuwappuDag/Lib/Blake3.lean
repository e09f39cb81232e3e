/-
  BLAKE3, evaluated.

  The development takes BLAKE3 as a parameter and asks of it only what a theorem needs.  Where a
  CLOSED instance is wanted (a run on fixed certificates, a satisfied hypothesis) the parameter is
  this function: unkeyed BLAKE3 with a 32-byte output, on 32-bit words held as naturals so that the
  kernel evaluates it.

  `force` hands an intermediate word on as a literal; without it the unevaluated word would be
  copied into every later use.
-/
import Mathlib

namespace SuwappuDag.Blake3

def force {α : Type} (n : Nat) (k : Nat → α) : α :=
  match n with
  | 0 => k 0
  | m + 1 => k (m + 1)

/-- Rotate a 32-bit word right. -/
def rotr (x n : Nat) : Nat := (x >>> n) ||| ((x <<< (32 - n)) % 2 ^ 32)

/-- One column of the 4 × 4 state. -/
structure Column where
  a : Nat
  b : Nat
  c : Nat
  d : Nat

/-- Half of the quarter round: add a message word and rotate by `s1`, `s2`. -/
def halfMix (s1 s2 : Nat) (v : Column) (x : Nat) : Column :=
  force ((v.a + v.b + x) % 2 ^ 32) fun a =>
  force (rotr (v.d ^^^ a) s1) fun d =>
  force ((v.c + d) % 2 ^ 32) fun c =>
  force (rotr (v.b ^^^ c) s2) fun b =>
  ⟨a, b, c, d⟩

/-- The quarter round `G`. -/
def mix (v : Column) (x y : Nat) : Column := halfMix 8 7 (halfMix 16 12 v x) y

structure State where
  v0 : Column
  v1 : Column
  v2 : Column
  v3 : Column

/-- One round: the four columns, then the four diagonals. -/
def round (s : State) : List Nat → State
  | [m0, m1, m2, m3, m4, m5, m6, m7, m8, m9, m10, m11, m12, m13, m14, m15] =>
    match mix s.v0 m0 m1, mix s.v1 m2 m3, mix s.v2 m4 m5, mix s.v3 m6 m7 with
    | ⟨a0, b0, c0, d0⟩, ⟨a1, b1, c1, d1⟩, ⟨a2, b2, c2, d2⟩, ⟨a3, b3, c3, d3⟩ =>
      match mix ⟨a0, b1, c2, d3⟩ m8 m9, mix ⟨a1, b2, c3, d0⟩ m10 m11,
            mix ⟨a2, b3, c0, d1⟩ m12 m13, mix ⟨a3, b0, c1, d2⟩ m14 m15 with
      | ⟨a0, b1, c2, d3⟩, ⟨a1, b2, c3, d0⟩, ⟨a2, b3, c0, d1⟩, ⟨a3, b0, c1, d2⟩ =>
        ⟨⟨a0, b0, c0, d0⟩, ⟨a1, b1, c1, d1⟩, ⟨a2, b2, c2, d2⟩, ⟨a3, b3, c3, d3⟩⟩
  | _ => s

/-- The message permutation between rounds. -/
def permute : List Nat → List Nat
  | [m0, m1, m2, m3, m4, m5, m6, m7, m8, m9, m10, m11, m12, m13, m14, m15] =>
    [m2, m6, m3, m10, m7, m0, m4, m13, m1, m11, m12, m5, m9, m14, m15, m8]
  | m => m

def rounds : Nat → State → List Nat → State
  | 0, s, _ => s
  | k + 1, s, m => rounds k (round s m) (permute m)

def iv : List Nat := [0x6A09E667, 0xBB67AE85, 0x3C6EF372, 0xA54FF53A,
  0x510E527F, 0x9B05688C, 0x1F83D9AB, 0x5BE0CD19]

/-- The compression function, truncated to the 8-word chaining value. -/
def compress (cv m : List Nat) (counter len flags : Nat) : List Nat :=
  match cv with
  | [h0, h1, h2, h3, h4, h5, h6, h7] =>
    match rounds 7 ⟨⟨h0, h4, 0x6A09E667, counter % 2 ^ 32⟩, ⟨h1, h5, 0xBB67AE85, counter / 2 ^ 32⟩,
        ⟨h2, h6, 0x3C6EF372, len⟩, ⟨h3, h7, 0xA54FF53A, flags⟩⟩ m with
    | ⟨⟨a0, b0, c0, d0⟩, ⟨a1, b1, c1, d1⟩, ⟨a2, b2, c2, d2⟩, ⟨a3, b3, c3, d3⟩⟩ =>
      force (a0 ^^^ c0) fun w0 => force (a1 ^^^ c1) fun w1 => force (a2 ^^^ c2) fun w2 =>
      force (a3 ^^^ c3) fun w3 => force (b0 ^^^ d0) fun w4 => force (b1 ^^^ d1) fun w5 =>
      force (b2 ^^^ d2) fun w6 => force (b3 ^^^ d3) fun w7 => [w0, w1, w2, w3, w4, w5, w6, w7]
  | _ => []

/-- `k` little-endian words, zero-padded. -/
def words : Nat → List UInt8 → List Nat
  | 0, _ => []
  | k + 1, bs =>
    force ((bs.getD 0 0).toNat + 256 * ((bs.getD 1 0).toNat + 256 * ((bs.getD 2 0).toNat
      + 256 * (bs.getD 3 0).toNat))) fun w => w :: words k (bs.drop 4)

/-- Chain the 64-byte blocks of one chunk; `start` is the CHUNK_START flag of the next block. -/
def blocks (counter root : Nat) : Nat → Nat → List Nat → List UInt8 → List Nat
  | 0, _, cv, _ => cv
  | fuel + 1, start, cv, bs =>
    if bs.length ≤ 64 then compress cv (words 16 bs) counter bs.length (start ||| 2 ||| root)
    else
      blocks counter root fuel 0 (compress cv (words 16 (bs.take 64)) counter 64 start) (bs.drop 64)

/-- Chunks in the left subtree: the largest power of two below `n`. -/
def leftChunks : Nat → Nat → Nat → Nat
  | 0, l, _ => l
  | fuel + 1, l, n => if 2 * l < n then leftChunks fuel (2 * l) n else l

/-- The chunk tree; `root` is the ROOT flag. -/
def tree : Nat → Nat → Nat → List UInt8 → List Nat
  | 0, _, _, _ => []
  | fuel + 1, counter, root, bs =>
    if bs.length ≤ 1024 then blocks counter root 17 1 iv bs
    else
      let l := leftChunks bs.length 1 ((bs.length + 1023) / 1024)
      compress iv (tree fuel counter 0 (bs.take (1024 * l))
        ++ tree fuel (counter + l) 0 (bs.drop (1024 * l))) 0 64 (4 ||| root)

/-- Eight little-endian words as one big-endian 256-bit word. -/
def digest (ws : List Nat) : Nat :=
  ws.foldl (fun acc w => acc * 2 ^ 32 +
    (w % 256 * 2 ^ 24 + w / 256 % 256 * 2 ^ 16 + w / 65536 % 256 * 256 + w / 16777216 % 256)) 0

/-- BLAKE3 with a 32-byte output. -/
def hash (bs : List UInt8) : BitVec 256 := BitVec.ofNat 256 (digest (tree 64 0 8 bs))

example : hash [] = 0xaf1349b9f5f9a1a6a0404dea36dcc9499bcb25c9adc112b7cc9a93cae41f3262#256 := by
  decide +kernel

end SuwappuDag.Blake3
