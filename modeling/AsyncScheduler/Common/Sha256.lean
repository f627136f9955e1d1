import Mathlib.Data.String.Basic

/-!
# SHA-256

The digest behind the deterministic task ids, on words below `2 ^ 32`.
-/

namespace AsyncScheduler

namespace Sha256

def word (n : Nat) : Nat := n % 4294967296

def rotr (n x : Nat) : Nat := word ((x * 4294967296 + x) >>> n)

def roundConstants : List Nat :=
  [0x428a2f98, 0x71374491, 0xb5c0fbcf, 0xe9b5dba5, 0x3956c25b, 0x59f111f1, 0x923f82a4, 0xab1c5ed5,
    0xd807aa98, 0x12835b01, 0x243185be, 0x550c7dc3, 0x72be5d74, 0x80deb1fe, 0x9bdc06a7, 0xc19bf174,
    0xe49b69c1, 0xefbe4786, 0x0fc19dc6, 0x240ca1cc, 0x2de92c6f, 0x4a7484aa, 0x5cb0a9dc, 0x76f988da,
    0x983e5152, 0xa831c66d, 0xb00327c8, 0xbf597fc7, 0xc6e00bf3, 0xd5a79147, 0x06ca6351, 0x14292967,
    0x27b70a85, 0x2e1b2138, 0x4d2c6dfc, 0x53380d13, 0x650a7354, 0x766a0abb, 0x81c2c92e, 0x92722c85,
    0xa2bfe8a1, 0xa81a664b, 0xc24b8b70, 0xc76c51a3, 0xd192e819, 0xd6990624, 0xf40e3585, 0x106aa070,
    0x19a4c116, 0x1e376c08, 0x2748774c, 0x34b0bcb5, 0x391c0cb3, 0x4ed8aa4a, 0x5b9cca4f, 0x682e6ff3,
    0x748f82ee, 0x78a5636f, 0x84c87814, 0x8cc70208, 0x90befffa, 0xa4506ceb, 0xbef9a3f7, 0xc67178f2]

def initial : List Nat :=
  [0x6a09e667, 0xbb67ae85, 0x3c6ef372, 0xa54ff53a, 0x510e527f, 0x9b05688c, 0x1f83d9ab, 0x5be0cd19]

def pad (bytes : List Nat) : List Nat :=
  let zeros := (119 - bytes.length % 64) % 64
  let bits := bytes.length * 8
  bytes ++ 0x80 :: List.replicate zeros 0 ++ (List.range 8).map fun i => bits >>> (8 * (7 - i)) % 256

def words : List Nat → List Nat
  | a :: b :: c :: d :: rest => (a * 16777216 + b * 65536 + c * 256 + d) :: words rest
  | _ => []

def extend : Nat → List Nat → List Nat
  | 0, ws => ws
  | n + 1, ws =>
    let w i := ws.getD (i - 1) 0
    let s₀ := rotr 7 (w 15) ^^^ rotr 18 (w 15) ^^^ (w 15 >>> 3)
    let s₁ := rotr 17 (w 2) ^^^ rotr 19 (w 2) ^^^ (w 2 >>> 10)
    extend n (word (w 16 + s₀ + w 7 + s₁) :: ws)

def round : List Nat → Nat × Nat → List Nat
  | [a, b, c, d, e, f, g, h], (k, w) =>
    let s₁ := rotr 6 e ^^^ rotr 11 e ^^^ rotr 25 e
    let ch := (e &&& f) ^^^ ((4294967295 - e) &&& g)
    let t₁ := h + s₁ + ch + k + w
    let s₀ := rotr 2 a ^^^ rotr 13 a ^^^ rotr 22 a
    let maj := (a &&& b) ^^^ (a &&& c) ^^^ (b &&& c)
    [word (t₁ + s₀ + maj), a, b, c, word (d + t₁), e, f, g]
  | state, _ => state

def compress (state block : List Nat) : List Nat :=
  let schedule := (extend 48 (words block).reverse).reverse
  List.zipWith (fun x y => word (x + y)) state ((roundConstants.zip schedule).foldl round state)

def blocks : Nat → List Nat → List Nat → List Nat
  | 0, state, _ => state
  | n + 1, state, bytes => blocks n (compress state (bytes.take 64)) (bytes.drop 64)

def hexDigits (x : Nat) : List Char := (List.range 8).map fun i => Nat.digitChar (x >>> (4 * (7 - i)) % 16)

/-- `hashlib.sha256(s.encode()).hexdigest()`. -/
def hexdigest (s : String) : String :=
  let bytes := pad (s.toUTF8.toList.map UInt8.toNat)
  String.ofList ((blocks (bytes.length / 64) initial bytes).flatMap hexDigits)

theorem round_length (state : List Nat) (kw : Nat × Nat) : (round state kw).length = state.length := by
  unfold round
  split
  · simp only [List.length_cons]
  · rfl

theorem foldl_round_length (kws : List (Nat × Nat)) (state : List Nat) : (kws.foldl round state).length = state.length := by
  induction kws generalizing state with
  | nil => rfl
  | cons kw kws ih => rw [List.foldl_cons, ih, round_length]

theorem blocks_length (n : Nat) (state bytes : List Nat) : (blocks n state bytes).length = state.length := by
  induction n generalizing state bytes with
  | zero => rfl
  | succ n ih => rw [blocks, ih, compress, List.length_zipWith, foldl_round_length, Nat.min_self]

theorem hexdigest_length (s : String) : (hexdigest s).length = 64 := by
  have h : ∀ l : List Nat, (l.flatMap hexDigits).length = l.length * 8 := by
    intro l
    induction l with
    | nil => rfl
    | cons x l ih => simp [hexDigits, ih, Nat.add_mul, Nat.add_comm]
  simp only [hexdigest, String.length_ofList, h, blocks_length]
  rfl

end Sha256

end AsyncScheduler
