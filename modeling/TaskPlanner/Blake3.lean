/-!
# BLAKE3

The BLAKE3 hash with a digest of 256 bits, for messages of any length: the message is
cut into chunks of 1024 bytes, each chunk into blocks of 64 bytes, and the chunks are
the leaves of a binary tree whose left subtrees are full.
-/

set_option autoImplicit false

namespace TaskPlanner.Blake3

/-- A block or a compression state: sixteen words, by position. -/
abbrev Words := Array UInt32

def initialWords : Words :=
  #[0x6A09E667, 0xBB67AE85, 0x3C6EF372, 0xA54FF53A, 0x510E527F, 0x9B05688C, 0x1F83D9AB, 0x5BE0CD19]

/-- Where each word of the next round's message stands in this round's message. -/
def messagePermutation : List Nat := [2, 6, 3, 10, 7, 0, 4, 13, 1, 11, 12, 5, 9, 14, 15, 8]

/-- What a compression is for, as bits to combine. -/
def chunkStart : UInt32 := 1

@[inherit_doc chunkStart] def chunkEnd : UInt32 := 2

@[inherit_doc chunkStart] def parent : UInt32 := 4

@[inherit_doc chunkStart] def root : UInt32 := 8

def wordAt (words : Words) (position : Nat) : UInt32 := words.getD position 0

def rotateRight (word : UInt32) (count : UInt32) : UInt32 :=
  (word >>> count) ||| (word <<< (32 - count))

def mix (state : Words) (a b c d : Nat) (first second : UInt32) : Words :=
  let va := wordAt state a + wordAt state b + first
  let vd := rotateRight (wordAt state d ^^^ va) 16
  let vc := wordAt state c + vd
  let vb := rotateRight (wordAt state b ^^^ vc) 12
  let va := va + vb + second
  let vd := rotateRight (vd ^^^ va) 8
  let vc := vc + vd
  let vb := rotateRight (vb ^^^ vc) 7
  (((state.setIfInBounds a va).setIfInBounds b vb).setIfInBounds c vc).setIfInBounds d vd

/-- The columns and diagonals of the state, each with the positions of its message words. -/
def lanes : List ((Nat × Nat × Nat × Nat) × Nat) :=
  [((0, 4, 8, 12), 0), ((1, 5, 9, 13), 2), ((2, 6, 10, 14), 4), ((3, 7, 11, 15), 6),
   ((0, 5, 10, 15), 8), ((1, 6, 11, 12), 10), ((2, 7, 8, 13), 12), ((3, 4, 9, 14), 14)]

def round (state message : Words) : Words :=
  lanes.foldl (fun current lane =>
    let ((a, b, c, d), position) := lane
    mix current a b c d (wordAt message position) (wordAt message (position + 1))) state

/-- The given number of rounds, with the message permuted between them. -/
def rounds : Nat → Words → Words → Words
  | 0, state, _ => state
  | count + 1, state, message =>
      rounds count (round state message) (messagePermutation.map (wordAt message)).toArray

def compress (chaining block : Words) (counter : Nat) (length flags : UInt32) : Words :=
  let start := (chaining.toList.take 8 ++ initialWords.toList.take 4 ++
    [counter.toUInt32, (counter >>> 32).toUInt32, length, flags]).toArray
  let final := rounds 7 start block
  ((List.range 8).map fun position => wordAt final position ^^^ wordAt final (position + 8)).toArray

def wordOfBytes (bytes : List UInt8) : UInt32 :=
  bytes.foldr (fun byte rest => (rest <<< 8) ||| byte.toUInt32) 0

/-- Cut a list into pieces of `size` elements, at most `count` of them. -/
def pieces {α : Type} (size : Nat) : Nat → List α → List (List α)
  | 0, _ => []
  | _ + 1, [] => []
  | count + 1, values => values.take size :: pieces size count (values.drop size)

def blockWords (block : List UInt8) : Words := ((pieces 4 16 block).map wordOfBytes).toArray

/-- Compress the blocks of one chunk in order. The last one gets `lastFlags` as well. -/
def compressBlocks (counter : Nat) (lastFlags : UInt32) : Words → UInt32 → List (List UInt8) → Words
  | chaining, _, [] => chaining
  | chaining, flags, [block] =>
      compress chaining (blockWords block) counter block.length.toUInt32
        (flags ||| chunkEnd ||| lastFlags)
  | chaining, flags, block :: rest =>
      compressBlocks counter lastFlags
        (compress chaining (blockWords block) counter block.length.toUInt32 flags) 0 rest

/-- The chaining value of a chunk. An empty chunk is one empty block. -/
def chunkValue (counter : Nat) (chunk : List UInt8) (lastFlags : UInt32) : Words :=
  let blocks := match pieces 64 16 chunk with
    | [] => [[]]
    | block :: rest => block :: rest
  compressBlocks counter lastFlags initialWords chunkStart blocks

def parentValue (left right : Words) (flags : UInt32) : Words :=
  compress initialWords (left ++ right) 0 64 (parent ||| flags)

/-- The largest power of two below `count`, for `count` above one. -/
def leftSize (count : Nat) : Nat := 1 <<< Nat.log2 (count - 1)

/-- The chaining value of the tree over numbered chunks; `depth` bounds its height. -/
def treeValue (flags : UInt32) : Nat → List (Nat × List UInt8) → Words
  | _, [] => chunkValue 0 [] flags
  | _, [(counter, chunk)] => chunkValue counter chunk flags
  | 0, (counter, chunk) :: _ => chunkValue counter chunk flags
  | depth + 1, chunks =>
      let size := leftSize chunks.length
      parentValue (treeValue 0 depth (chunks.take size)) (treeValue 0 depth (chunks.drop size)) flags

def hexDigit (value : Nat) : Char :=
  if value < 10 then Char.ofNat (48 + value) else Char.ofNat (87 + value)

/-- The bytes of a word, the lowest first, in lower-case hexadecimal. -/
def hexOfWord (word : UInt32) : List Char :=
  (List.range 4).flatMap fun position =>
    let byte := word.toNat >>> (8 * position) % 256
    [hexDigit (byte / 16), hexDigit (byte % 16)]

def hexDigest (message : List UInt8) : String :=
  let chunks := pieces 1024 message.length message
  let numbered := (List.range chunks.length).zip chunks
  String.ofList ((treeValue root chunks.length numbered).toList.flatMap hexOfWord)

end TaskPlanner.Blake3
