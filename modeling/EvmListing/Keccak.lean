import EvmListing.Bytes

/-! The Keccak sponge with a 256-bit digest, a rate of 136 bytes and the padding that begins with a
single set bit. -/
namespace EvmListing.Keccak

/-- The state: 25 lanes, the one in column x and row y at index x + 5y. -/
abbrev Lanes := Vector UInt64 25

def rate : Nat := 136

def lane (s : Lanes) (x y : Nat) : UInt64 := s.get ⟨x % 5 + 5*(y % 5), by omega⟩

/-- A state given by the lane of each column and row. -/
def tabulate (f : Nat → Nat → UInt64) : Lanes := Vector.ofFn fun i => f (i.val % 5) (i.val / 5)

def rotate (w : UInt64) (n : UInt64) : UInt64 := (w <<< n) ||| (w >>> (64 - n))

/-- The rotation of each lane. -/
def rotations : Lanes := #v[
  0, 1, 62, 28, 27,
  36, 44, 6, 55, 20,
  3, 10, 43, 25, 39,
  41, 45, 15, 21, 8,
  18, 2, 61, 56, 14]

/-- The constants mixed into the first lane, one for each round. -/
def roundConstants : List UInt64 := [
  0x0000000000000001, 0x0000000000008082, 0x800000000000808a, 0x8000000080008000,
  0x000000000000808b, 0x0000000080000001, 0x8000000080008081, 0x8000000000008009,
  0x000000000000008a, 0x0000000000000088, 0x0000000080008009, 0x000000008000000a,
  0x000000008000808b, 0x800000000000008b, 0x8000000000008089, 0x8000000000008003,
  0x8000000000008002, 0x8000000000000080, 0x000000000000800a, 0x800000008000000a,
  0x8000000080008081, 0x8000000000008080, 0x0000000080000001, 0x8000000080008008]

/-- Each lane takes in the parity of the column before its own and, rotated, of the one after. -/
def theta (s : Lanes) : Lanes :=
  let parity : Vector UInt64 5 := Vector.ofFn fun x =>
    lane s x.val 0 ^^^ lane s x.val 1 ^^^ lane s x.val 2 ^^^ lane s x.val 3 ^^^ lane s x.val 4
  let column (x : Nat) : UInt64 := parity.get ⟨x % 5, by omega⟩
  tabulate fun x y => lane s x y ^^^ column (x + 4) ^^^ rotate (column (x + 1)) 1

/-- Lanes are rotated and moved to their new places. -/
def rhoPi (s : Lanes) : Lanes :=
  tabulate fun x y => rotate (lane s (x + 3*y) x) (lane rotations (x + 3*y) x)

/-- The only nonlinear step, along each row. -/
def chi (s : Lanes) : Lanes :=
  tabulate fun x y => lane s x y ^^^ (~~~lane s (x + 1) y &&& lane s (x + 2) y)

def round (s : Lanes) (constant : UInt64) : Lanes :=
  let t := chi (rhoPi (theta s))
  t.set 0 (t.get 0 ^^^ constant)

def permute (s : Lanes) : Lanes := roundConstants.foldl round s

/-- The word that eight bytes spell, least significant byte first. -/
def word (bs : Bytes) : UInt64 := bs.foldr (fun b w => (w <<< 8) ||| b.toUInt64) 0

/-- Mixes a block of `rate` bytes into the state. -/
def mix (s : Lanes) (block : Bytes) : Lanes :=
  let words := (List.range (rate / 8)).map fun i => word ((block.drop (8*i)).take 8)
  tabulate fun x y => lane s x y ^^^ words.getD (x + 5*y) 0

/-- Absorbs the given number of whole blocks. -/
def absorb : Nat → Bytes → Lanes → Lanes
  | 0, _, s => s
  | n+1, data, s => absorb n (data.drop rate) (permute (mix s (data.take rate)))

/-- What follows a message so that whole blocks result: a set bit first, a set bit last. -/
def padding (length : Nat) : Bytes :=
  match rate - length % rate with
  | 0 => []
  | 1 => [0x81]
  | n+2 => 0x01 :: List.replicate n 0x00 ++ [0x80]

/-- The eight bytes of a word, least significant byte first. -/
def wordBytes (w : UInt64) : Bytes := (List.range 8).map fun i => (w >>> (8*i).toUInt64).toUInt8

/-- The Keccak-256 digest of a message. -/
def digest (data : Bytes) : Bytes :=
  let s := absorb (data.length / rate + 1) (data ++ padding data.length) (Vector.replicate 25 0)
  (s.toList.take 4).flatMap wordBytes

@[simp] theorem wordBytes_length (w : UInt64) : (wordBytes w).length = 8 := by simp [wordBytes]

@[simp] theorem digest_length (data : Bytes) : (digest data).length = 32 := by
  simp [digest, List.length_flatMap, List.map_const']

end EvmListing.Keccak
